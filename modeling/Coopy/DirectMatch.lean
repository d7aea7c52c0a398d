import Coopy.ChainedPatcher
import Coopy.Lib.Overwrites
import Coopy.OrderResult
import Coopy.Sniffers

/-!
# Direct matching: trusted column names and mapping sheets

`FastMatch` pairs columns by their names, and `doRowMapping` pairs rows by the keys that a mapping
sheet lists. Both fill the two directions on their own, from maps that hold the last place of a name
or key.

    a column matching is built ↔ the sheets count as identical, names are not asked for, or they
      stand once on each side                                                   (buildsMatching_iff)
    the row matchings are inverse and exact ↔ the mapping is unambiguous       (matchesDirectly_iff)
-/

namespace Coopy

open Lib Lib.Overwrites

/-- Two sheets of partners that are mutually inverse, for `n` and `m` units. -/
def IsMatching (n m : Nat) (o : OrderResult) : Prop := ∃ M : Matching n m, M.toOrderResult = o

/-- A partner as a cell of a selection. -/
def partner : Option Nat → Int
  | none => -1
  | some i => i

/-! ## Trusted names -/

/-- What `FastMatch` sees of the sheets of a pass. -/
structure FastMatch where
  a : DataSheet
  b : DataSheet
  localNames : NameSniffer
  remoteNames : NameSniffer
  localHash : String
  remoteHash : String
  localFits : localNames.Fits a.width
  remoteFits : remoteNames.Fits b.width

namespace FastMatch

/-- The units that a pass matches: rows or columns. -/
def units (rowLike : Bool) (sheet : DataSheet) : Nat :=
  if rowLike then sheet.height else sheet.width

/-- Whether the sheets are taken to be identical: by their cells, or by their hashes if there are
any. -/
def identical (f : FastMatch) : Bool :=
  decide (f.a.width = f.b.width ∧ f.a.height = f.b.height) &&
    if f.localHash = "" then
      (List.range f.a.height).all fun r => (List.range f.a.width).all fun c =>
        f.a.cellSummary c r == f.b.cellSummary c r
    else f.localHash == f.remoteHash

/-- The columns under their own names, each with the last column of the name on the other side.  A
column without a name is read out of bounds. -/
def trusted (width : Nat) (own other : List String) : Option (List Int) :=
  (List.range width).mapM fun i => own[i]?.map fun name => partner ((indexBy other).get? name)

def doMatch (f : FastMatch) (rowLike trustColumnNames : Bool) : Option OrderResult :=
  let alen := units rowLike f.a
  let blen := units rowLike f.b
  if f.identical then some ⟨(List.range alen).map Int.ofNat, (List.range alen).map Int.ofNat⟩
  else if rowLike = false ∧ trustColumnNames = true then
    (trusted alen f.localNames.names f.remoteNames.names).bind fun asel =>
      (trusted blen f.remoteNames.names f.localNames.names).map fun bsel => ⟨asel, bsel⟩
  else some ⟨List.replicate alen (-1), List.replicate blen (-1)⟩

/-- The result is a partial bijection. -/
def BuildsMatching (f : FastMatch) (rowLike trustColumnNames : Bool) : Prop :=
  ∃ o, f.doMatch rowLike trustColumnNames = some o ∧
  IsMatching (units rowLike f.a) (units rowLike f.b) o

/-- The name stands at one place only. -/
def StandsOnce (names : List String) (name : String) : Prop :=
  ∀ i j : Nat, names[i]? = some name → names[j]? = some name → i = j

/-- Every column has a name, and no shared name is repeated on either side. -/
structure Trustworthy (f : FastMatch) : Prop where
  localNamed : f.localNames.names.length = f.a.width
  remoteNamed : f.remoteNames.names.length = f.b.width
  once : ∀ name ∈ f.localNames.names, name ∈ f.remoteNames.names →
    StandsOnce f.localNames.names name ∧ StandsOnce f.remoteNames.names name

end FastMatch

/-! ## Mapping sheets -/

/-- What `doRowMapping` is given: the sheets, and `pivot_sides_with_local`. -/
structure RowMapping where
  pivot : DataSheet
  locals : DataSheet
  remote : DataSheet
  mapping : DataSheet
  localPivot : Bool

namespace RowMapping

def encodeKey (sheet : DataSheet) (x y len : Nat) : String :=
  "__".intercalate ((List.range' x len).map fun i => (sheet.cellSummary i y).toString)

/-- The columns of a key. -/
def keyWidth (m : RowMapping) : Nat := m.mapping.width / 2

/-- `local_index` and its siblings. -/
def rowIndex (m : RowMapping) (sheet : DataSheet) : AssocMap String Nat :=
  indexBy ((List.range sheet.height).map fun i => encodeKey sheet 0 i m.keyWidth)

/-- The selections as the loop fills them. -/
structure Links where
  l2p : List Int
  r2p : List Int
  p2l : List Int
  p2r : List Int

def klocal (m : RowMapping) (i : Nat) : String := encodeKey m.mapping 0 i m.keyWidth

def kremote (m : RowMapping) (i : Nat) : String := encodeKey m.mapping m.keyWidth i m.keyWidth

/-- The body of the loop over the mapping rows. -/
def linkRow (m : RowMapping) (s : Links) (i : Nat) : Links :=
  let l := (m.rowIndex m.locals).get? (m.klocal i)
  let r := (m.rowIndex m.remote).get? (m.kremote i)
  match (m.rowIndex m.pivot).get? (if m.localPivot then m.klocal i else m.kremote i) with
  | none => s
  | some p =>
    let s := match l with
      | some l => { s with l2p := s.l2p.set l p, p2l := s.p2l.set p l }
      | none => s
    match r with
    | some r => { s with r2p := s.r2p.set r p, p2r := s.p2r.set p r }
    | none => s

/-- The branch of `doRowMapping` for a mapping: the orders from the pivot to local and to remote. -/
def doRowMapping (m : RowMapping) : OrderResult × OrderResult :=
  let s := (List.range m.mapping.height).foldl m.linkRow
    { l2p := List.replicate m.locals.height (-1)
      r2p := List.replicate m.remote.height (-1)
      p2l := List.replicate m.pivot.height (-1)
      p2r := List.replicate m.pivot.height (-1) }
  (⟨s.p2l, s.l2p⟩, ⟨s.p2r, s.r2p⟩)

/-- Some mapping row holds the key cells of the local row, and then those of the remote row. -/
def HasRow (m : RowMapping) (l r : Nat) : Prop :=
  ∃ i < m.mapping.height, ∀ c < m.keyWidth, m.mapping.cellSummary c i = m.locals.cellSummary c l ∧
    m.mapping.cellSummary (m.keyWidth + c) i = m.remote.cellSummary c r

/-- Both orders are partial bijections, and rows are joined through the pivot only as the mapping
has it. -/
structure MatchesDirectly (m : RowMapping) : Prop where
  locals : IsMatching m.pivot.height m.locals.height m.doRowMapping.1
  remote : IsMatching m.pivot.height m.remote.height m.doRowMapping.2
  joined : ∀ p l r : Nat, m.doRowMapping.1.a2b p = l → m.doRowMapping.2.a2b p = r → m.HasRow l r

/-- What a mapping row finds: a pivot row, and the rows of the two sides if there are any. -/
structure Found where
  pivot : Nat
  local? : Option Nat
  remote? : Option Nat

def find (m : RowMapping) (i : Nat) : Option Found :=
  ((m.rowIndex m.pivot).get? (if m.localPivot then m.klocal i else m.kremote i)).map fun p =>
    ⟨p, (m.rowIndex m.locals).get? (m.klocal i), (m.rowIndex m.remote).get? (m.kremote i)⟩

/-- The mapping rows that find a pivot row. -/
def found (m : RowMapping) : List Found := (List.range m.mapping.height).filterMap m.find

/-- The side whose key is not the one looked up in the pivot. -/
def free (m : RowMapping) (e : Found) : Option Nat := if m.localPivot then e.remote? else e.local?

/-- The pivot rows with the rows of a side. -/
def pairsOf (side : Found → Option Nat) (es : List Found) : List (Nat × Nat) :=
  es.filterMap fun e => (side e).map fun x => (e.pivot, x)

/-- No pivot row and no row of the free side is taken away from its partner alone, and a mapping row
that joins two rows stands for their own key cells. -/
structure Unambiguous (m : RowMapping) : Prop where
  apart : LastTogether (pairsOf m.free m.found)
  exact : ∀ pre e suf l r, m.found = pre ++ e :: suf → e.local? = some l → e.remote? = some r →
    (∀ e' ∈ suf, e'.pivot = e.pivot → m.free e' = none) → m.HasRow l r

end RowMapping

/-! ## Selections from partners -/

theorem partner_eq_iff (o : Option Nat) (j : Nat) : partner o = j ↔ o = some j := by
  cases o with
  | none => exact iff_of_false (by simp [partner]) (by simp)
  | some i =>
    rw [Option.some.injEq]
    exact Int.ofNat_inj

/-- The selections of two partial functions are a matching if and only if the functions are
inverse. -/
theorem isMatching_iff {n m : Nat} {f g : Nat → Option Nat} (hf : ∀ i j, f i = some j → j < m)
    (hg : ∀ j i, g j = some i → i < n) :
    IsMatching n m ⟨(List.range n).map fun i => partner (f i), (List.range m).map fun j =>
      partner (g j)⟩ ↔ ∀ i < n, ∀ j < m, f i = some j ↔ g j = some i := by
  have hget : ∀ (k : Nat) (h : Nat → Option Nat), ∀ i < k,
      ((List.range k).map fun i => partner (h i)).getD i (-1) = partner (h i) := fun k h i hi => by
    rw [List.getD_eq_getElem?_getD, List.getElem?_map, List.getElem?_range hi]
    rfl
  have hrange : ∀ {k k' : Nat} {h : Nat → Option Nat}, (∀ i j, h i = some j → j < k') →
      ∀ x ∈ (List.range k).map fun i => partner (h i), x = -1 ∨ (0 ≤ x ∧ x < k') := by
    intro k k' h hlt x hx
    obtain ⟨i, -, rfl⟩ := List.mem_map.1 hx
    cases hi : h i with
    | none => exact Or.inl rfl
    | some j =>
      have hj : j < k' := hlt i j hi
      exact Or.inr ⟨Int.natCast_nonneg j, Int.ofNat_lt.2 hj⟩
  constructor
  · rintro ⟨M, hM⟩ i hi j hj
    have hpair := M.paired i hi j hj
    rw [hM, hget n f i hi, hget m g j hj, partner_eq_iff, partner_eq_iff] at hpair
    exact hpair
  · intro hinv
    refine ⟨{ a2bSheet := _, b2aSheet := _, alen_eq := ?_, blen_eq := ?_, a2b_range := hrange hf,
              b2a_range := hrange hg, paired := fun i hi j hj => ?_ }, rfl⟩
    · rw [List.length_map, List.length_range]
    · rw [List.length_map, List.length_range]
    · rw [hget n f i hi, hget m g j hj, partner_eq_iff, partner_eq_iff]
      exact hinv i hi j hj

namespace FastMatch

/-- The last column of the same name on the other side. -/
def partnerOf (own other : List String) (i : Nat) : Option Nat :=
  own[i]?.bind fun name => (indexBy other).get? name

theorem partnerOf_eq_some_iff {own other : List String} {i j : Nat} :
    partnerOf own other i = some j ↔
      ∃ name, own[i]? = some name ∧ other[j]? = some name ∧ ∀ k, j < k → other[k]? ≠ some name := by
  unfold partnerOf
  rw [Option.bind_eq_some_iff]
  exact exists_congr fun name => and_congr_right fun _ => indexBy_eq_some_iff

theorem trusted_eq {own other : List String} {width : Nat} (h : own.length = width) :
    trusted width own other =
    some ((List.range width).map fun i => partner (partnerOf own other i)) := by
  refine mapM_eq_some_map fun i hi => ?_
  have hi : i < own.length := h ▸ List.mem_range.1 hi
  unfold partnerOf
  rw [List.getElem?_eq_getElem hi]
  rfl

/-- Without names, the first column is read out of bounds. -/
theorem length_of_trusted {sniffer : NameSniffer} {other : List String} {width : Nat}
    {sel : List Int}
    (hfits : sniffer.Fits width) (h : trusted width sniffer.names other = some sel) :
    sniffer.names.length = width := by
  rcases hfits with hempty | hlen
  · cases width with
    | zero => rw [hempty]; rfl
    | succ width =>
      have hnone : trusted (width + 1) sniffer.names other = none :=
        mapM_eq_none ⟨0, List.mem_range.2 (Nat.succ_pos _), by rw [hempty]; rfl⟩
      rw [hnone] at h
      cases h
  · exact hlen

/-- A name that stands on both sides has a last column on each. -/
theorem exists_last {names : List String} {name : String} (h : name ∈ names) :
    ∃ i : Nat, names[i]? = some name ∧ ∀ k, i < k → names[k]? ≠ some name := by
  cases hget : (indexBy names).get? name with
  | none => exact absurd h (indexBy_eq_none_iff.1 hget)
  | some i => exact ⟨i, indexBy_eq_some_iff.1 hget⟩

/-- The two directions agree if and only if no shared name is repeated. -/
theorem partnerOf_inverse_iff {ln rn : List String} :
    (∀ i < ln.length, ∀ j < rn.length, partnerOf ln rn i = some j ↔ partnerOf rn ln j = some i) ↔
      ∀ name ∈ ln, name ∈ rn → StandsOnce ln name ∧ StandsOnce rn name := by
  have hlt : ∀ {names : List String} {i : Nat} {name : String}, names[i]? = some name →
    i < names.length := fun h => (List.getElem?_eq_some_iff.1 h).1
  constructor
  · intro hinv name hl hr
    obtain ⟨i, hi, hlasti⟩ := exists_last hl
    obtain ⟨j, hj, hlastj⟩ := exists_last hr
    have hleft : ∀ i', ln[i']? = some name → i' = i := fun i' hi' => by
      have hback :=
        (hinv i' (hlt hi') j (hlt hj)).1 (partnerOf_eq_some_iff.2 ⟨name, hi', hj, hlastj⟩)
      have hhere : partnerOf rn ln j = some i := partnerOf_eq_some_iff.2 ⟨name, hj, hi, hlasti⟩
      exact Option.some.inj (hback.symm.trans hhere)
    have hright : ∀ j', rn[j']? = some name → j' = j := fun j' hj' => by
      have hback :=
        (hinv i (hlt hi) j' (hlt hj')).2 (partnerOf_eq_some_iff.2 ⟨name, hj', hi, hlasti⟩)
      have hhere : partnerOf ln rn i = some j := partnerOf_eq_some_iff.2 ⟨name, hi, hj, hlastj⟩
      exact Option.some.inj (hback.symm.trans hhere)
    exact ⟨fun x y hx hy => (hleft x hx).trans (hleft y hy).symm, fun x y hx hy =>
      (hright x hx).trans (hright y hy).symm⟩
  · intro honce i hi j hj
    rw [partnerOf_eq_some_iff, partnerOf_eq_some_iff]
    constructor
    · rintro ⟨name, hi', hj', -⟩
      obtain ⟨hl, -⟩ := honce name (List.mem_of_getElem? hi') (List.mem_of_getElem? hj')
      exact ⟨name, hj', hi', fun k hk he => Nat.ne_of_lt hk (hl i k hi' he)⟩
    · rintro ⟨name, hj', hi', -⟩
      obtain ⟨-, hr⟩ := honce name (List.mem_of_getElem? hi') (List.mem_of_getElem? hj')
      exact ⟨name, hi', hj', fun k hk he => Nat.ne_of_lt hk (hr j k hj' he)⟩

theorem identical_isMatching {f : FastMatch} (h : f.identical = true) (rowLike : Bool) :
    IsMatching (units rowLike f.a) (units rowLike f.b)
      ⟨(List.range (units rowLike f.a)).map Int.ofNat,
        (List.range (units rowLike f.a)).map Int.ofNat⟩ := by
  have hsize : units rowLike f.a = units rowLike f.b := by
    unfold identical at h
    rw [Bool.and_eq_true, decide_eq_true_eq] at h
    cases rowLike with
    | true => exact h.1.2
    | false => exact h.1.1
  rw [← hsize]
  exact ⟨Matching.identity _, rfl⟩

theorem unmatched_isMatching (n m : Nat) :
    IsMatching n m ⟨List.replicate n (-1), List.replicate m (-1)⟩ := by
  have h :=
    (@isMatching_iff n m (fun _ => none) (fun _ => none) (fun _ _ h => nomatch h)
      (fun _ _ h => nomatch h)).2
    fun _ _ _ _ => iff_of_false (fun h => nomatch h) (fun h => nomatch h)
  simpa [partner, List.map_const'] using h

/-- **Trusted names** give a partial bijection only where they can be trusted. -/
theorem buildsMatching_iff (f : FastMatch) (rowLike trustColumnNames : Bool) :
    f.BuildsMatching rowLike trustColumnNames ↔
      f.identical = true ∨ rowLike = true ∨ trustColumnNames = false ∨ f.Trustworthy := by
  unfold BuildsMatching doMatch
  simp only
  by_cases hid : f.identical = true
  · rw [if_pos hid]
    exact iff_of_true ⟨_, rfl, identical_isMatching hid rowLike⟩ (Or.inl hid)
  rw [if_neg hid]
  by_cases htrust : rowLike = false ∧ trustColumnNames = true
  swap
  · rw [if_neg htrust]
    refine iff_of_true ⟨_, rfl, unmatched_isMatching _ _⟩ (Or.inr ?_)
    cases rowLike <;> cases trustColumnNames <;> simp at htrust ⊢
  rw [if_pos htrust]
  obtain ⟨rfl, rfl⟩ := htrust
  have hiff :
    ∀ (hl : f.localNames.names.length = f.a.width) (hr : f.remoteNames.names.length = f.b.width),
      IsMatching f.a.width f.b.width
        ⟨(List.range f.a.width).map fun i =>
          partner (partnerOf f.localNames.names f.remoteNames.names i),
          (List.range f.b.width).map fun j =>
            partner (partnerOf f.remoteNames.names f.localNames.names j)⟩ ↔
        ∀ name ∈ f.localNames.names, name ∈ f.remoteNames.names →
          StandsOnce f.localNames.names name ∧ StandsOnce f.remoteNames.names name := by
    intro hl hr
    rw [isMatching_iff, ← partnerOf_inverse_iff, hl, hr]
    · intro i j hij
      obtain ⟨name, -, hj, -⟩ := partnerOf_eq_some_iff.1 hij
      exact hr ▸ (List.getElem?_eq_some_iff.1 hj).1
    · intro j i hji
      obtain ⟨name, -, hi, -⟩ := partnerOf_eq_some_iff.1 hji
      exact hl ▸ (List.getElem?_eq_some_iff.1 hi).1
  have hgo : (f.identical = true ∨ false = true ∨ true = false ∨ f.Trustworthy) ↔
    f.Trustworthy := by
    simp [hid]
  rw [hgo]
  constructor
  · rintro ⟨o, ho, hmatch⟩
    obtain ⟨asel, ha, ho⟩ := Option.bind_eq_some_iff.1 ho
    obtain ⟨bsel, hb, rfl⟩ := Option.map_eq_some_iff.1 ho
    have hl := length_of_trusted f.localFits ha
    have hr := length_of_trusted f.remoteFits hb
    have ha' := (trusted_eq hl).symm.trans ha
    have hb' := (trusted_eq hr).symm.trans hb
    cases ha'
    cases hb'
    exact ⟨hl, hr, (hiff hl hr).1 hmatch⟩
  · rintro ⟨hl, hr, honce⟩
    refine ⟨_, ?_, (hiff hl hr).2 honce⟩
    show (trusted f.a.width _ _).bind (fun asel => (trusted f.b.width _ _).map _) = _
    rw [trusted_eq hl, trusted_eq hr]
    rfl

end FastMatch

namespace RowMapping

variable {m : RowMapping}

/-! ## The loop as two lists of pairs -/

/-- Pairs as entries of a selection. -/
def entries (ps : List (Nat × Nat)) : List (Nat × Int) := ps.map fun e => (e.1, (e.2 : Int))

theorem pairsOf_cons (side : Found → Option Nat) (e : Found) (es : List Found) :
    pairsOf side (e :: es) = ((side e).map fun x => (e.pivot, x)).toList ++ pairsOf side es := by
  unfold pairsOf
  rw [List.filterMap_cons]
  cases side e <;> rfl

/-- The loop enters the pairs of both sides, each in both directions. -/
theorem foldl_linkRow (is : List Nat) : ∀ s : Links, is.foldl m.linkRow s =
    { l2p := fill (entries (turned (pairsOf Found.local? (is.filterMap m.find)))) s.l2p
      r2p := fill (entries (turned (pairsOf Found.remote? (is.filterMap m.find)))) s.r2p
      p2l := fill (entries (pairsOf Found.local? (is.filterMap m.find))) s.p2l
      p2r := fill (entries (pairsOf Found.remote? (is.filterMap m.find))) s.p2r } := by
  induction is with
  | nil => exact fun s => rfl
  | cons i is ih =>
    intro s
    rw [List.foldl_cons, ih]
    unfold linkRow
    cases hp : (m.rowIndex m.pivot).get? (if m.localPivot then m.klocal i else m.kremote i) with
    | none => rw [List.filterMap_cons_none (by rw [find, hp, Option.map_none])]
    | some p =>
      rw [List.filterMap_cons_some (by rw [find, hp, Option.map_some]), pairsOf_cons, pairsOf_cons]
      cases (m.rowIndex m.locals).get? (m.klocal i) <;>
        cases (m.rowIndex m.remote).get? (m.kremote i) <;> rfl

theorem last_entries (ps : List (Nat × Nat)) (x : Nat) :
    last (entries ps) x = (last ps x).map Int.ofNat := by
  induction ps with
  | nil => rfl
  | cons e ps ih =>
    rw [entries, List.map_cons, last_cons, last_cons]
    rw [entries] at ih
    rw [ih]
    cases last ps x with
    | some y => rfl
    | none =>
      rw [Option.map_none, Option.none_or, Option.none_or]
      split <;> rfl

theorem fill_entries (ps : List (Nat × Nat)) (n : Nat) :
    fill (entries ps) (List.replicate n (-1)) = (List.range n).map fun i =>
    partner (last ps i) := by
  refine List.ext_getElem? fun i => ?_
  by_cases hi : i < n
  · rw [getElem?_fill _ _ (by rwa [List.length_replicate]), last_entries, List.getElem?_replicate,
      if_pos hi, List.getElem?_map, List.getElem?_range hi, Option.map_some]
    cases last ps i <;> rfl
  · rw [List.getElem?_eq_none (by rw [length_fill, List.length_replicate]; omega),
      List.getElem?_eq_none (by rw [List.length_map, List.length_range]; omega)]

/-- A selection and its inverse, filled from pairs, match if and only if no pair is overwritten on
one side alone. -/
theorem isMatching_fill_iff {ps : List (Nat × Nat)} {n k : Nat} (hps : ∀ e ∈ ps, e.1 < n ∧
    e.2 < k) : IsMatching n k ⟨fill (entries ps) (List.replicate n (-1)),
      fill (entries (turned ps)) (List.replicate k (-1))⟩ ↔
      LastTogether ps := by
  have hleft : ∀ i j, last ps i = some j → i < n ∧ j < k := fun i j h => hps (i, j) (mem_of_last h)
  have hright : ∀ j i, last (turned ps) j = some i → i < n ∧ j < k := fun j i h => by
    obtain ⟨e, he, hswap⟩ := List.mem_map.1 (mem_of_last h)
    cases hswap
    exact hps e he
  rw [fill_entries, fill_entries,
    isMatching_iff (fun i j h => (hleft i j h).2) (fun j i h => (hright j i h).1),
    ← inverse_iff]
  constructor
  · intro hinv
    refine ⟨fun i j h => (hinv i (hleft i j h).1 j (hleft i j h).2).1 h, fun j i h => ?_⟩
    rw [turned_turned]
    exact (hinv i (hright j i h).1 j (hright j i h).2).2 h
  · rintro ⟨hl, hr⟩ i - j -
    refine ⟨hl i j, fun h => ?_⟩
    have := hr j i h
    rwa [turned_turned] at this

theorem doRowMapping_eq (m : RowMapping) : m.doRowMapping =
    (⟨fill (entries (pairsOf Found.local? m.found)) (List.replicate m.pivot.height (-1)),
        fill (entries (turned (pairsOf Found.local? m.found)))
          (List.replicate m.locals.height (-1))⟩,
      ⟨fill (entries (pairsOf Found.remote? m.found)) (List.replicate m.pivot.height (-1)),
        fill (entries (turned (pairsOf Found.remote? m.found)))
          (List.replicate m.remote.height (-1))⟩) := by
  unfold doRowMapping
  rw [foldl_linkRow]
  rfl

/-- The last pair of a pivot row is that of the last mapping row that finds it with a row of the
side. -/
theorem last_pairsOf_eq_some_iff {side : Found → Option Nat} {es : List Found} {p x : Nat} :
    last (pairsOf side es) p = some x ↔
      ∃ pre e suf, es = pre ++ e :: suf ∧ e.pivot = p ∧ side e = some x ∧ ∀ e' ∈ suf, e'.pivot = p →
      side e' = none := by
  have hnone : ∀ es : List Found, last (pairsOf side es) p = none ↔ ∀ e ∈ es, e.pivot = p →
    side e = none := by
    intro es
    rw [last_eq_none_iff]
    constructor
    · intro hp e he hep
      cases hs : side e with
      | none => rfl
      | some y =>
        refine absurd
          (List.mem_map.2 ⟨(e.pivot, y), List.mem_filterMap.2 ⟨e, he, by rw [hs]; rfl⟩, hep⟩) hp
    · intro hes hmem
      obtain ⟨pair, hpair, rfl⟩ := List.mem_map.1 hmem
      obtain ⟨e, he, hmap⟩ := List.mem_filterMap.1 hpair
      obtain ⟨y, hy, rfl⟩ := Option.map_eq_some_iff.1 hmap
      rw [hes e he rfl] at hy
      cases hy
  induction es with
  | nil =>
    exact iff_of_false (fun h => nomatch h) fun ⟨pre, e, suf, h, _⟩ => by cases pre <;> cases h
  | cons e es ih =>
    rw [pairsOf_cons, last_append]
    cases hrest : last (pairsOf side es) p with
    | some y =>
      rw [Option.some_or]
      rw [hrest] at ih
      refine ih.trans ⟨?_, ?_⟩
      · rintro ⟨pre, e', suf, rfl, h⟩
        exact ⟨e :: pre, e', suf, rfl, h⟩
      · rintro ⟨pre, e', suf, hes, hp, hs, hlater⟩
        cases pre with
        | nil =>
          obtain ⟨rfl, rfl⟩ := List.cons.inj hes
          rw [(hnone es).2 hlater] at hrest
          cases hrest
        | cons _ pre => exact ⟨pre, e', suf, (List.cons.inj hes).2, hp, hs, hlater⟩
    | none =>
      rw [Option.none_or]
      have hhere : last ((side e).map fun x => (e.pivot, x)).toList p = some x ↔ e.pivot = p ∧
        side e = some x := by
        cases side e with
        | none => simp [last]
        | some y => by_cases hp : e.pivot = p <;> simp [last, hp]
      rw [hhere]
      constructor
      · rintro ⟨hp, hs⟩
        exact ⟨[], e, es, rfl, hp, hs, (hnone es).1 hrest⟩
      · rintro ⟨pre, e', suf, hes, hp, hs, -⟩
        cases pre with
        | nil =>
          obtain ⟨rfl, rfl⟩ := List.cons.inj hes
          exact ⟨hp, hs⟩
        | cons _ pre =>
          obtain ⟨rfl, rfl⟩ := List.cons.inj hes
          rw [(hnone _).1 hrest e' (by simp) hp] at hs
          cases hs

/-! ## The side that the pivot sits with -/

/-- The side whose key is looked up in the pivot too. -/
def anchored (m : RowMapping) (e : Found) : Option Nat :=
  if m.localPivot then e.local? else e.remote?

theorem rowIndex_eq_some {sheet : DataSheet} {k : String} {i : Nat}
    (h : (m.rowIndex sheet).get? k = some i) :
    i < sheet.height ∧ encodeKey sheet 0 i m.keyWidth = k := by
  obtain ⟨hget, -⟩ := indexBy_eq_some_iff.1 h
  rw [List.getElem?_map, Option.map_eq_some_iff] at hget
  obtain ⟨i', hi', hk⟩ := hget
  obtain ⟨hlt, rfl⟩ := List.getElem?_eq_some_iff.1 hi'
  rw [List.getElem_range] at hk
  rw [List.length_range] at hlt
  exact ⟨hlt, hk⟩

/-- The pivot row and the row of the anchored side are looked up under one key. -/
theorem found_key {e : Found} (he : e ∈ m.found) : ∃ k, (m.rowIndex m.pivot).get? k = some e.pivot ∧
    (m.rowIndex (if m.localPivot then m.locals else m.remote)).get? k = m.anchored e := by
  obtain ⟨i, -, hi⟩ := List.mem_filterMap.1 he
  obtain ⟨p, hp, rfl⟩ := Option.map_eq_some_iff.1 hi
  refine ⟨_, hp, ?_⟩
  unfold anchored
  cases m.localPivot <;> rfl

theorem anchored_eq_of_pivot_eq {e e' : Found} (he : e ∈ m.found) (he' : e' ∈ m.found)
    (h : e.pivot = e'.pivot) : m.anchored e = m.anchored e' := by
  obtain ⟨k, hk, hside⟩ := found_key he
  obtain ⟨k', hk', hside'⟩ := found_key he'
  have hkey : k = k' := by
    rw [← (rowIndex_eq_some hk).2, ← (rowIndex_eq_some hk').2, h]
  rw [← hside, ← hside', hkey]

theorem pivot_eq_of_anchored_eq {e e' : Found} {x : Nat} (he : e ∈ m.found) (he' : e' ∈ m.found)
    (h : m.anchored e = some x) (h' : m.anchored e' = some x) : e.pivot = e'.pivot := by
  obtain ⟨k, hk, hside⟩ := found_key he
  obtain ⟨k', hk', hside'⟩ := found_key he'
  have hkey : k = k' := by
    rw [← (rowIndex_eq_some (hside.trans h)).2, ← (rowIndex_eq_some (hside'.trans h')).2]
  rw [← hkey, hk] at hk'
  exact Option.some.inj hk'

/-- The anchored side is never torn apart. -/
theorem lastTogether_anchored (m : RowMapping) : LastTogether (pairsOf m.anchored m.found) := by
  have key : ∀ ps : List (Nat × Nat), (∀ e ∈ ps, ∀ e' ∈ ps, e.1 = e'.1 ↔ e.2 = e'.2) →
    LastTogether ps := by
    intro ps
    induction ps with
    | nil => exact fun _ => trivial
    | cons e ps ih =>
      intro h
      have hhead := fun e' (he' : e' ∈ ps) => h e List.mem_cons_self e' (List.mem_cons_of_mem _ he')
      refine ⟨⟨fun hmem => ?_, fun hmem => ?_⟩, ih fun a ha b hb =>
        h a (List.mem_cons_of_mem _ ha) b (List.mem_cons_of_mem _ hb)⟩
      · obtain ⟨e', he', heq⟩ := List.mem_map.1 hmem
        exact List.mem_map.2 ⟨e', he', ((hhead e' he').1 heq.symm).symm⟩
      · obtain ⟨e', he', heq⟩ := List.mem_map.1 hmem
        exact List.mem_map.2 ⟨e', he', ((hhead e' he').2 heq.symm).symm⟩
  refine key _ fun a ha b hb => ?_
  obtain ⟨e, he, hmap⟩ := List.mem_filterMap.1 ha
  obtain ⟨x, hx, rfl⟩ := Option.map_eq_some_iff.1 hmap
  obtain ⟨e', he', hmap'⟩ := List.mem_filterMap.1 hb
  obtain ⟨x', hx', rfl⟩ := Option.map_eq_some_iff.1 hmap'
  constructor
  · intro hp
    have := anchored_eq_of_pivot_eq he he' hp
    rw [hx, hx'] at this
    exact Option.some.inj this
  · intro hxx
    have hxx : x = x' := hxx
    exact pivot_eq_of_anchored_eq he he' hx (hxx ▸ hx')

theorem sides (m : RowMapping) : (m.anchored = Found.local? ∧ m.free = Found.remote?) ∨
    (m.anchored = Found.remote? ∧ m.free = Found.local?) := by
  unfold anchored free
  cases m.localPivot with
  | true => exact Or.inl ⟨rfl, rfl⟩
  | false => exact Or.inr ⟨rfl, rfl⟩

/-- A pivot row joins the rows of the last mapping row that finds it with a row of the free side. -/
theorem joined_iff {p x y : Nat} :
    (last (pairsOf m.anchored m.found) p = some x ∧ last (pairsOf m.free m.found) p = some y) ↔
      ∃ pre e suf, m.found = pre ++ e :: suf ∧ e.pivot = p ∧ m.anchored e = some x ∧
      m.free e = some y ∧
        ∀ e' ∈ suf, e'.pivot = p → m.free e' = none := by
  constructor
  · rintro ⟨hx, hy⟩
    obtain ⟨pre, e, suf, hfound, hp, hfree, hlater⟩ := last_pairsOf_eq_some_iff.1 hy
    obtain ⟨pre', e', suf', hfound', hp', hanch, -⟩ := last_pairsOf_eq_some_iff.1 hx
    have he : e ∈ m.found := by rw [hfound]; simp
    have he' : e' ∈ m.found := by rw [hfound']; simp
    exact ⟨pre, e, suf, hfound, hp,
      (anchored_eq_of_pivot_eq he he' (hp.trans hp'.symm)).trans hanch, hfree, hlater⟩
  · rintro ⟨pre, e, suf, hfound, hp, hanch, hfree, hlater⟩
    refine ⟨?_, last_pairsOf_eq_some_iff.2 ⟨pre, e, suf, hfound, hp, hfree, hlater⟩⟩
    have he : e ∈ m.found := by rw [hfound]; simp
    cases hlast : last (pairsOf m.anchored m.found) p with
    | none =>
      refine absurd ?_ (last_eq_none_iff.1 hlast)
      exact List.mem_map.2 ⟨(e.pivot, x), List.mem_filterMap.2 ⟨e, he, by rw [hanch]; rfl⟩, hp⟩
    | some x' =>
      obtain ⟨pre', e', suf', hfound', hp', hanch', -⟩ := last_pairsOf_eq_some_iff.1 hlast
      have he' : e' ∈ m.found := by rw [hfound']; simp
      rw [← hanch', ← hanch]
      exact anchored_eq_of_pivot_eq he' he (hp'.trans hp.symm)

/-! ## The orders -/

theorem mem_found {e : Found} (he : e ∈ m.found) : e.pivot < m.pivot.height ∧
    (∀ l, e.local? = some l → l < m.locals.height) ∧ ∀ r, e.remote? = some r →
    r < m.remote.height := by
  obtain ⟨i, -, hi⟩ := List.mem_filterMap.1 he
  obtain ⟨p, hp, rfl⟩ := Option.map_eq_some_iff.1 hi
  exact ⟨(rowIndex_eq_some hp).1, fun l hl => (rowIndex_eq_some hl).1,
    fun r hr => (rowIndex_eq_some hr).1⟩

theorem mem_pairsOf_lt {side : Found → Option Nat} {k : Nat}
    (hside : ∀ e ∈ m.found, ∀ x, side e = some x → x < k) :
    ∀ e ∈ pairsOf side m.found, e.1 < m.pivot.height ∧ e.2 < k := by
  intro pair hpair
  obtain ⟨e, he, hmap⟩ := List.mem_filterMap.1 hpair
  obtain ⟨x, hx, rfl⟩ := Option.map_eq_some_iff.1 hmap
  exact ⟨(mem_found he).1, hside e he x hx⟩

theorem lookup_fill_iff {ps : List (Nat × Nat)} {n k p x : Nat}
    (hps : ∀ e ∈ ps, e.1 < n ∧ e.2 < k) :
    OrderResult.lookup (fill (entries ps) (List.replicate n (-1))) p = x ↔ last ps p = some x := by
  rw [OrderResult.lookup_natCast, fill_entries, List.getD_eq_getElem?_getD, List.getElem?_map]
  by_cases hp : p < n
  · rw [List.getElem?_range hp]
    exact partner_eq_iff _ _
  · rw [List.getElem?_eq_none (by rw [List.length_range]; omega)]
    refine iff_of_false (fun h => ?_) fun h => hp (hps (p, x) (mem_of_last h)).1
    have h : (-1 : Int) = x := h
    omega

/-- A pivot row is matched with `l` and `r` if a mapping row joins the three, and none behind it
finds the pivot row with a row of the free side. -/
theorem a2b_iff {p l r : Nat} : (m.doRowMapping.1.a2b p = l ∧ m.doRowMapping.2.a2b p = r) ↔
    ∃ pre e suf, m.found = pre ++ e :: suf ∧ e.pivot = p ∧ e.local? = some l ∧ e.remote? = some r ∧
      ∀ e' ∈ suf, e'.pivot = p → m.free e' = none := by
  have hl : m.doRowMapping.1.a2b p = l ↔ last (pairsOf Found.local? m.found) p = some l := by
    rw [doRowMapping_eq]
    exact lookup_fill_iff (mem_pairsOf_lt fun e he => (mem_found he).2.1)
  have hr : m.doRowMapping.2.a2b p = r ↔ last (pairsOf Found.remote? m.found) p = some r := by
    rw [doRowMapping_eq]
    exact lookup_fill_iff (mem_pairsOf_lt fun e he => (mem_found he).2.2)
  rw [hl, hr]
  rcases m.sides with ⟨hanch, hfree⟩ | ⟨hanch, hfree⟩
  · rw [← hanch, ← hfree]
    exact joined_iff
  · rw [← hanch, ← hfree, and_comm]
    refine joined_iff.trans (exists_congr fun pre => exists_congr fun e =>
      exists_congr fun suf => ?_)
    tauto

/-- **Row matching by a mapping sheet** is a partial bijection that joins rows by their own key
cells only where the mapping is unambiguous. -/
theorem matchesDirectly_iff (m : RowMapping) : m.MatchesDirectly ↔ m.Unambiguous := by
  have hlocal : IsMatching m.pivot.height m.locals.height m.doRowMapping.1 ↔
      LastTogether (pairsOf Found.local? m.found) := by
    rw [doRowMapping_eq]
    exact isMatching_fill_iff (mem_pairsOf_lt fun e he => (mem_found he).2.1)
  have hremote : IsMatching m.pivot.height m.remote.height m.doRowMapping.2 ↔
      LastTogether (pairsOf Found.remote? m.found) := by
    rw [doRowMapping_eq]
    exact isMatching_fill_iff (mem_pairsOf_lt fun e he => (mem_found he).2.2)
  have hsides : (IsMatching m.pivot.height m.locals.height m.doRowMapping.1 ∧
      IsMatching m.pivot.height m.remote.height m.doRowMapping.2) ↔
      LastTogether (pairsOf m.free m.found) := by
    have hanchored := lastTogether_anchored m
    rw [hlocal, hremote]
    rcases m.sides with ⟨hanch, hfree⟩ | ⟨hanch, hfree⟩
    · rw [hanch] at hanchored
      rw [hfree]
      exact and_iff_right hanchored
    · rw [hanch] at hanchored
      rw [hfree]
      exact and_iff_left hanchored
  constructor
  · rintro ⟨hl, hr, hjoined⟩
    refine ⟨hsides.1 ⟨hl, hr⟩, fun pre e suf l r hfound hel her hlater => ?_⟩
    obtain ⟨hpl, hpr⟩ := a2b_iff.2 ⟨pre, e, suf, hfound, rfl, hel, her, hlater⟩
    exact hjoined e.pivot l r hpl hpr
  · rintro ⟨hapart, hexact⟩
    obtain ⟨hl, hr⟩ := hsides.2 hapart
    refine ⟨hl, hr, fun p l r hpl hpr => ?_⟩
    obtain ⟨pre, e, suf, hfound, rfl, hel, her, hlater⟩ := a2b_iff.1 ⟨hpl, hpr⟩
    exact hexact pre e suf l r hfound hel her hlater

end RowMapping

/-! ## Both kinds of direct matching -/

/-- **Direct matching**: the columns are matched one to one if and only if the names can be trusted
(where they are asked), and the rows as the mapping has them if and only if it is unambiguous. -/
theorem directMatching_iff (f : FastMatch) (rowLike trustColumnNames : Bool) (m : RowMapping) :
    (f.BuildsMatching rowLike trustColumnNames ↔
        f.identical = true ∨ rowLike = true ∨ trustColumnNames = false ∨ f.Trustworthy) ∧
      (m.MatchesDirectly ↔ m.Unambiguous) :=
  ⟨f.buildsMatching_iff rowLike trustColumnNames, m.matchesDirectly_iff⟩

/-- A sheet of texts. -/
def textSheet (width : Nat) (texts : List (List String)) (h : ∀ row ∈ texts, row.length = width) :
    DataSheet where
  width := width
  rows := texts.map fun row => row.map fun text => ⟨text, false⟩
  rect := by simpa using h
  stored := by simp [SheetCell.Stored]

/-- Two columns of one name, and one of that name on the other side. -/
def repeatedName : FastMatch where
  a := textSheet 2 [["1", "2"]] (by simp)
  b := textSheet 1 [["1"]] (by simp)
  localNames := ⟨["a", "a"], []⟩
  remoteNames := ⟨["a"], []⟩
  localHash := ""
  remoteHash := ""
  localFits := Or.inr rfl
  remoteFits := Or.inr rfl

/-- Two mapping rows that name one remote row. -/
def sharedRow : RowMapping where
  pivot := textSheet 1 [["x"], ["y"]] (by simp)
  locals := textSheet 1 [["x"], ["y"]] (by simp)
  remote := textSheet 1 [["u"]] (by simp)
  mapping := textSheet 2 [["x", "u"], ["y", "u"]] (by simp)
  localPivot := true

/-- A local key that runs together to the same text as that of the mapping row. -/
def runTogether : RowMapping where
  pivot := textSheet 2 [["a", "b__c"]] (by simp)
  locals := textSheet 2 [["a", "b__c"]] (by simp)
  remote := textSheet 2 [["u", "v"]] (by simp)
  mapping := textSheet 4 [["a__b", "c", "u", "v"]] (by simp)
  localPivot := true

/-- A repeated name, a row named twice and a key with the separator in it each break the
matching. -/
theorem directMatching_breaks :
    ¬ repeatedName.BuildsMatching false true ∧ ¬ sharedRow.MatchesDirectly ∧
    ¬ runTogether.MatchesDirectly := by
  refine ⟨fun h => ?_, fun h => ?_, fun h => ?_⟩
  · rcases (repeatedName.buildsMatching_iff false true).1 h with h | h | h | h
    · exact absurd h (by decide)
    · cases h
    · cases h
    · exact absurd ((h.once "a" (by simp [repeatedName]) (by simp [repeatedName])).1 0 1 rfl rfl)
        (by decide)
  · exact absurd (sharedRow.matchesDirectly_iff.1 h).apart (by decide)
  · obtain ⟨i, hi, hcells⟩ := h.joined 0 0 0 (by decide) (by decide)
    obtain rfl : i = 0 := Nat.lt_one_iff.1 hi
    exact absurd (hcells 0 (by decide)).1 (by decide)

end Coopy
