import Coopy.SheetHash

/-!
# The hash cache

`getHash(true)` answers from `hash_cache` once that is set.  Nothing that edits a sheet clears it:
the cache is a member of `DataSheet`, and the edits are those of `TypedSheet` and `PolySheet`.  A
`PolySheet` without an offset asks the sheet it holds; with one it keeps a cache of its own.

    every getHash(true) of a run is right ↔ all of them see the same text         (hashes_right_iff)
-/

namespace Coopy

/-- A `PolySheet` over a sheet, each with its cache. -/
structure HashedSheet where
  sheet : TypedSheet SheetCell
  dh : Nat := 0
  hashCache : String := ""
  ownCache : String := ""
deriving DecidableEq, Repr

/-- What is done to a sheet between hashes, or a hash. -/
inductive SheetOp
  | row (op : RowOp)
  | insertColumn (base : Int)
  | deleteColumn (column : Int)
  | moveColumn (src base : Int)
  | getHash
deriving DecidableEq, Repr

namespace HashedSheet

/-- The sheet after an operation. -/
def edit (dh : Nat) (s : TypedSheet SheetCell) : SheetOp → TypedSheet SheetCell
  | .row op => (PolySheet.rowOp dh s op).1
  | .insertColumn base => (s.insertColumn base).1
  | .deleteColumn column => (s.deleteColumn column).1
  | .moveColumn src base => (s.moveColumn src base).1
  | .getHash => s

variable (sha1 : String → String)

/-- `PolySheet::getHash`. -/
def getHash (h : HashedSheet) (cache : Bool) : String × HashedSheet :=
  if h.dh = 0 then
    let r := h.sheet.getHash sha1 h.dh h.hashCache cache
    (r.1, { h with hashCache := r.2 })
  else
    let r := h.sheet.getHash sha1 h.dh h.ownCache cache
    (r.1, { h with ownCache := r.2 })

/-- A run: for each `getHash(true)`, the sheet it is asked of and the answer. -/
def hashes : List SheetOp → HashedSheet → List (HashedSheet × String)
  | [], _ => []
  | .getHash :: ops, h =>
    let r := h.getHash sha1 true
    (h, r.1) :: hashes ops r.2
  | op :: ops, h => hashes ops { h with sheet := edit h.dh h.sheet op }

/-- Every answer is the one `getHash(false)` gives there. -/
def Right (answers : List (HashedSheet × String)) : Prop :=
  ∀ p ∈ answers, p.2 = (p.1.getHash sha1 false).1

/-- The sheets a run asks the hash of. -/
def asked (dh : Nat) : List SheetOp → TypedSheet SheetCell → List (TypedSheet SheetCell)
  | [], _ => []
  | .getHash :: ops, s => s :: asked dh ops s
  | op :: ops, s => asked dh ops (edit dh s op)

/-- The cache that `getHash` uses. -/
def memo (h : HashedSheet) : String := if h.dh = 0 then h.hashCache else h.ownCache

theorem getHash_false (h : HashedSheet) :
    (h.getHash sha1 false).1 = sha1 (h.sheet.hashText h.dh) := by
  unfold getHash
  split <;> rfl

theorem getHash_of_memo (h : HashedSheet) (hm : h.memo ≠ "") :
    h.getHash sha1 true = (h.memo, h) := by
  unfold memo at *
  by_cases hd : h.dh = 0
  · rw [if_pos hd] at hm ⊢
    simp only [getHash, if_pos hd, TypedSheet.getHash, if_true, if_pos hm]
  · rw [if_neg hd] at hm ⊢
    simp only [getHash, if_neg hd, TypedSheet.getHash, if_true, if_pos hm]

theorem getHash_of_fresh (h : HashedSheet) (hm : h.memo = "") :
    (h.getHash sha1 true).1 = sha1 (h.sheet.hashText h.dh) ∧
      (h.getHash sha1 true).2.memo = sha1 (h.sheet.hashText h.dh) ∧
      (h.getHash sha1 true).2.sheet = h.sheet ∧ (h.getHash sha1 true).2.dh = h.dh := by
  unfold getHash memo TypedSheet.getHash at *
  by_cases hd : h.dh = 0
  · rw [if_pos hd] at hm
    simp [hd, hm, TypedSheet.getRawHash]
  · rw [if_neg hd] at hm
    simp [hd, hm, TypedSheet.getRawHash]

theorem hashes_edit {op : SheetOp} (hop : op ≠ .getHash) (ops : List SheetOp) (h : HashedSheet) :
    hashes sha1 (op :: ops) h = hashes sha1 ops { h with sheet := edit h.dh h.sheet op } := by
  cases op with
  | getHash => exact absurd rfl hop
  | row op => rfl
  | insertColumn base => rfl
  | deleteColumn column => rfl
  | moveColumn src base => rfl

theorem asked_edit {op : SheetOp} (hop : op ≠ .getHash) (dh : Nat) (ops : List SheetOp)
    (s : TypedSheet SheetCell) : asked dh (op :: ops) s = asked dh ops (edit dh s op) := by
  cases op with
  | getHash => exact absurd rfl hop
  | row op => rfl
  | insertColumn base => rfl
  | deleteColumn column => rfl
  | moveColumn src base => rfl

/-- Once the cache is set, every answer is the one it holds. -/
theorem right_of_memo_iff (ops : List SheetOp) (h : HashedSheet) (hm : h.memo ≠ "") :
    Right sha1 (hashes sha1 ops h) ↔ ∀ t ∈ asked h.dh ops h.sheet, h.memo =
    sha1 (t.hashText h.dh) := by
  induction ops generalizing h with
  | nil => simp [Right, hashes, asked]
  | cons op ops ih =>
    by_cases hop : op = .getHash
    · subst hop
      have hrest := ih h hm
      unfold Right at hrest ⊢
      rw [hashes, asked, getHash_of_memo sha1 h hm, List.forall_mem_cons, List.forall_mem_cons,
        hrest, getHash_false]
    · rw [hashes_edit sha1 hop, asked_edit hop]
      exact ih { h with sheet := edit h.dh h.sheet op } hm

/-- The first answer is right, and the later ones repeat it. -/
theorem right_of_fresh_iff (hsha1 : ∀ t, sha1 t ≠ "") (ops : List SheetOp) (h : HashedSheet)
    (hm : h.memo = "") : Right sha1 (hashes sha1 ops h) ↔
      ∀ a ∈ asked h.dh ops h.sheet, ∀ b ∈ asked h.dh ops h.sheet,
        sha1 (a.hashText h.dh) = sha1 (b.hashText h.dh) := by
  induction ops generalizing h with
  | nil => simp [Right, hashes, asked]
  | cons op ops ih =>
    by_cases hop : op = .getHash
    · subst hop
      obtain ⟨hanswer, hmemo, hsheet, hdh⟩ := getHash_of_fresh sha1 h hm
      have hrest :=
        right_of_memo_iff sha1 ops (h.getHash sha1 true).2 (by rw [hmemo]; exact hsha1 _)
      rw [hmemo, hsheet, hdh] at hrest
      unfold Right at hrest ⊢
      rw [hashes, asked, List.forall_mem_cons, hrest, getHash_false]
      constructor
      · rintro ⟨-, hall⟩ a ha b hb
        have heach : ∀ t ∈ h.sheet :: asked h.dh ops h.sheet,
            sha1 (h.sheet.hashText h.dh) = sha1 (t.hashText h.dh) := by
          intro t ht
          rcases List.mem_cons.1 ht with rfl | ht
          · rfl
          · exact hall t ht
        exact (heach a ha).symm.trans (heach b hb)
      · intro hall
        exact ⟨hanswer, fun t ht => hall _ List.mem_cons_self _ (List.mem_cons_of_mem _ ht)⟩
    · rw [hashes_edit sha1 hop, asked_edit hop]
      exact ih { h with sheet := edit h.dh h.sheet op } hm

/-- **When the cache is right.**  On a sheet not yet hashed, a run answers every `getHash(true)` as
`getHash(false)` would exactly when all of these calls find the same text in the sheet. -/
theorem hashes_right_iff (hsha1 : Function.Injective sha1) (hne : ∀ t, sha1 t ≠ "")
    (s : TypedSheet SheetCell) (dh : Nat) (ops : List SheetOp) :
    Right sha1 (hashes sha1 ops { sheet := s, dh := dh }) ↔
      ∀ a ∈ asked dh ops s, ∀ b ∈ asked dh ops s, a.hashText dh = b.hashText dh := by
  have hfresh : ({ sheet := s, dh := dh } : HashedSheet).memo = "" := by
    unfold memo
    split <;> rfl
  rw [right_of_fresh_iff sha1 hne ops _ hfresh]
  simp only [hsha1.eq_iff]

/-- A sheet of one cell. -/
def oneCell : TypedSheet SheetCell := ⟨[[⟨"a", false⟩]], 1, ⟨"", false⟩⟩

/-- A run that asks for the hash of the cell `a` twice, with a row added and taken away in between;
the digest of that text is the real one. -/
theorem hashes_right_iff_restored :
    Right (fun t => if t = "Xa" then "36aecfb10b92898886fd60af83ab02f154effa37" else "#" ++ t)
      (hashes (fun t => if t = "Xa" then "36aecfb10b92898886fd60af83ab02f154effa37" else "#" ++ t)
        [.getHash, .row (.insertRow (-1)), .row (.deleteRow 1), .getHash]
          { sheet := oneCell, dh := 0 }) := by
  refine (hashes_right_iff _ ?_ ?_ oneCell 0 _).2 (by decide)
  · intro s t h
    have hne : ∀ u : String, "36aecfb10b92898886fd60af83ab02f154effa37" ≠ "#" ++ u := by
      intro u hu
      have hlist := congrArg String.toList hu
      rw [String.toList_append] at hlist
      exact absurd (List.cons.inj hlist).1 (by decide)
    simp only at h
    split at h <;> split at h
    · rename_i hs ht
      rw [hs, ht]
    · exact absurd h (hne t)
    · exact absurd h.symm (hne s)
    · have hlist := congrArg String.toList h
      rw [String.toList_append, String.toList_append, List.append_cancel_left_eq] at hlist
      exact String.toList_inj.1 hlist
  · intro t h
    split at h
    · exact absurd h (by decide)
    · have hlist := congrArg String.toList h
      rw [String.toList_append] at hlist
      exact absurd hlist (List.cons_ne_nil _ _)

/-- One cell, hashed, written, and hashed again: no digest makes the second answer right. -/
theorem hashes_stale :
    ¬∃ sha1 : String → String, Function.Injective sha1 ∧ (∀ t, sha1 t ≠ "") ∧
      Right sha1
        (hashes sha1 [.getHash, .row (.setCell 0 0 ⟨"b", false⟩), .getHash]
        { sheet := oneCell, dh := 0 }) := by
  rintro ⟨sha1, hinj, hne, hright⟩
  have hsame := (right_of_fresh_iff sha1 hne _ _ rfl).1 hright
  simp only [hinj.eq_iff] at hsame
  exact absurd hsame (by decide)

end HashedSheet

end Coopy
