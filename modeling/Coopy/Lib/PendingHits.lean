import Coopy.Lib.Hunks
import Mathlib.Logic.Function.Basic

/-!
# Changes met in a list of entries

The changes wait under the texts of their own entries.  A scan of all entries passes on a change at
the first entry with its text, and takes it out; any other entry is a plain item, or nothing.

    no entry has the text of a change that comes later → each change comes at its own entry
    else the first change that comes at another entry takes the place of a plain item   (scan_place)
-/

namespace Coopy.Lib

namespace Hits

variable {ε κ γ β : Type} [DecidableEq κ] (text : ε → κ) (plain : ε → Option β)

def scan (hit : κ → Option γ) : List ε → List (Item γ β)
  | [] => []
  | e :: es =>
    match hit (text e) with
    | some c => .change c :: scan (Function.update hit (text e) none) es
    | none => ((plain e).map .plain).toList ++ scan hit es

section
variable [DecidableEq ε] (own : γ → ε) (changes : List γ)

/-- What an entry passes on where each change comes at its own entry. -/
def place (e : ε) : Option (Item γ β) :=
  match changes.find? fun c => own c = e with
  | some c => some (.change c)
  | none => (plain e).map .plain

/-- No entry has the text of a change that comes later. -/
def Clean (es : List ε) : Prop :=
  ∀ front e back, es = front ++ e :: back → ∀ c ∈ changes, own c ∈ back → text e ≠ text (own c)

structure Entries (es : List ε) : Prop where
  nodup : es.Nodup
  ownText : ∀ c ∈ changes, ∀ d ∈ changes, text (own c) = text (own d) → c = d
  -- an entry that is nothing comes behind one with its text
  behind : ∀ front e back, es = front ++ e :: back → plain e = none → (∀ c ∈ changes, own c ≠ e) →
    ∃ e' ∈ front, text e' = text e

/-- The changes that wait, between the entries that were scanned and those that were not. -/
structure Pending (front es : List ε) (hit : κ → Option γ) : Prop where
  found : ∀ k c, hit k = some c → k = text (own c) ∧ c ∈ changes ∧ own c ∈ es
  waits : ∀ c ∈ changes, own c ∈ es → hit (text (own c)) = some c
  past : ∀ e ∈ front, hit (text e) = none

end

variable {text plain}

/-! ## What is passed on -/

theorem mem_of_update {hit : κ → Option γ} {k k' : κ} {c : γ}
    (h : Function.update hit k none k' = some c) :
    k' ≠ k ∧ hit k' = some c := by
  by_cases hk : k' = k
  · rw [hk, Function.update_self] at h
    cases h
  · rw [Function.update_of_ne hk] at h
    exact ⟨hk, h⟩

theorem change_mem_scan {c : γ} (es : List ε) :
    ∀ hit : κ → Option γ, .change c ∈ scan text plain hit es → ∃ k, hit k = some c := by
  induction es with
  | nil => exact fun _ h => nomatch h
  | cons e es ih =>
    intro hit h
    rw [scan] at h
    cases hhit : hit (text e) with
    | some d =>
      simp only [hhit, List.mem_cons, Item.change.injEq] at h
      rcases h with rfl | h
      · exact ⟨_, hhit⟩
      · obtain ⟨k, hk⟩ := ih _ h
        exact ⟨k, (mem_of_update hk).2⟩
    | none =>
      simp only [hhit, List.mem_append, Option.mem_toList, Option.map_eq_some_iff] at h
      rcases h with ⟨r, -, hr⟩ | h
      · cases hr
      · exact ih hit h

theorem plain_mem_scan {r : β} (es : List ε) :
    ∀ hit : κ → Option γ, .plain r ∈ scan text plain hit es → r ∈ es.filterMap plain := by
  induction es with
  | nil => exact fun _ h => nomatch h
  | cons e es ih =>
    intro hit h
    rw [List.mem_filterMap]
    rw [scan] at h
    cases hhit : hit (text e) with
    | some d =>
      simp only [hhit, List.mem_cons, reduceCtorEq, false_or] at h
      obtain ⟨e', he', hr⟩ := List.mem_filterMap.1 (ih _ h)
      exact ⟨e', List.mem_cons_of_mem _ he', hr⟩
    | none =>
      simp only [hhit, List.mem_append, Option.mem_toList, Option.map_eq_some_iff,
        Item.plain.injEq] at h
      rcases h with ⟨r', hr', rfl⟩ | h
      · exact ⟨e, List.mem_cons_self, hr'⟩
      · obtain ⟨e', he', hr⟩ := List.mem_filterMap.1 (ih _ h)
        exact ⟨e', List.mem_cons_of_mem _ he', hr⟩

theorem nodup_scan (es : List ε) : ∀ hit : κ → Option γ, (es.filterMap plain).Nodup →
    (∀ k k' c, hit k = some c → hit k' = some c → k = k') → (scan text plain hit es).Nodup := by
  induction es with
  | nil => exact fun _ _ _ => List.nodup_nil
  | cons e es ih =>
    intro hit hplain hinj
    have hrest : (es.filterMap plain).Nodup :=
      hplain.sublist ((List.sublist_cons_self e es).filterMap plain)
    rw [scan]
    cases hhit : hit (text e) with
    | some c =>
      refine List.nodup_cons.2 ⟨fun hc => ?_, ih _ hrest fun k k' d hk hk' => ?_⟩
      · obtain ⟨k, hk⟩ := change_mem_scan es _ hc
        obtain ⟨hne, hk⟩ := mem_of_update hk
        exact hne (hinj _ _ c hk hhit)
      · exact hinj k k' d (mem_of_update hk).2 (mem_of_update hk').2
    | none =>
      cases hp : plain e with
      | none => exact ih hit hrest hinj
      | some r =>
        refine List.nodup_cons.2 ⟨fun hr => ?_, ih hit hrest hinj⟩
        rw [List.filterMap_cons_some hp, List.nodup_cons] at hplain
        exact hplain.1 (plain_mem_scan es hit hr)

/-! ## The places of the changes -/

variable [DecidableEq ε] {own : γ → ε} {changes : List γ}

theorem place_own (hinj : ∀ c ∈ changes, ∀ d ∈ changes, own c = own d → c = d) {c : γ}
    (hc : c ∈ changes) : place plain own changes (own c) = some (.change c) := by
  unfold place
  cases hfind : changes.find? fun d => own d = own c with
  | none => exact absurd (decide_eq_true rfl) (List.find?_eq_none.1 hfind c hc)
  | some d =>
    have hown : own d = own c := by simpa using List.find?_some hfind
    rw [hinj d (List.mem_of_find?_eq_some hfind) c hc hown]

theorem place_other {e : ε} (h : ∀ c ∈ changes, own c ≠ e) :
    place plain own changes e = (plain e).map .plain := by
  have hfind : (changes.find? fun c => own c = e) = none := by
    rw [List.find?_eq_none]
    intro c hc
    simpa using h c hc
  simp only [place, hfind]

theorem filterMap_place (e : ε) (es : List ε) : (e :: es).filterMap (place plain own changes) =
    (place plain own changes e).toList ++ es.filterMap (place plain own changes) := by
  cases h : place plain own changes e with
  | none => exact List.filterMap_cons_none h
  | some x => exact List.filterMap_cons_some h

omit [DecidableEq κ] [DecidableEq ε] in
theorem Clean.tail {e : ε} {es : List ε} (h : Clean text own changes (e :: es)) :
    Clean text own changes es :=
  fun front e' back he => h (e :: front) e' back (congrArg (e :: ·) he)

omit [DecidableEq κ] [DecidableEq ε] in
theorem Clean.cons {e : ε} {es : List ε} (h : Clean text own changes es)
    (hhead : ∀ c ∈ changes, own c ∈ es → text e ≠ text (own c)) :
    Clean text own changes (e :: es) := by
  intro front e' back he
  cases front with
  | nil =>
    obtain ⟨rfl, rfl⟩ := List.cons.inj he
    exact hhead
  | cons f front => exact h front e' back (List.cons.inj he).2

section
variable {front es : List ε} {e : ε} {hit : κ → Option γ}

omit [DecidableEq κ] [DecidableEq ε] in
/-- An entry under whose text nothing waits. -/
theorem Pending.skip (h : Pending text own changes front (e :: es) hit)
    (hhit : hit (text e) = none) : Pending text own changes (front ++ [e]) es hit where
  found := by
    intro k c hk
    obtain ⟨htext, hc, hmem⟩ := h.found k c hk
    refine ⟨htext, hc, (List.mem_cons.1 hmem).resolve_left fun he => ?_⟩
    rw [htext, he, hhit] at hk
    cases hk
  waits c hc hmem := h.waits c hc (List.mem_cons_of_mem _ hmem)
  past := by
    intro f hf
    rcases List.mem_append.1 hf with hf | hf
    · exact h.past f hf
    · rw [List.mem_singleton.1 hf]
      exact hhit

omit [DecidableEq ε] in
/-- A change that waits under the text of its own entry. -/
theorem Pending.take (h : Pending text own changes front (e :: es) hit)
    (hall : Entries text plain own changes (front ++ e :: es))
    {c : γ} (hhit : hit (text e) = some c) (hown : own c = e) :
    Pending text own changes (front ++ [e]) es (Function.update hit (text e) none) where
  found := by
    intro k d hk
    obtain ⟨hne, hk⟩ := mem_of_update hk
    obtain ⟨htext, hd, hmem⟩ := h.found k d hk
    exact ⟨htext, hd, (List.mem_cons.1 hmem).resolve_left fun he =>
      hne (htext.trans (congrArg text he))⟩
  waits := by
    intro d hd hmem
    have hwaits := h.waits d hd (List.mem_cons_of_mem _ hmem)
    rw [Function.update_of_ne, hwaits]
    intro htext
    rw [htext, hhit] at hwaits
    rw [← Option.some.inj hwaits, hown] at hmem
    exact (List.nodup_cons.1 (List.nodup_append.1 hall.nodup).2.1).1 hmem
  past := by
    intro f hf
    by_cases htext : text f = text e
    · rw [htext, Function.update_self]
    · rw [Function.update_of_ne htext]
      rcases List.mem_append.1 hf with hf | hf
      · exact h.past f hf
      · exact absurd (congrArg text (List.mem_singleton.1 hf)) htext

/-- **The scan** passes on each change at its own entry, unless another one before it has its
text. -/
theorem scan_place (hall : Entries text plain own changes (front ++ es))
    (h : Pending text own changes front es hit) :
    (Clean text own changes es ∧ scan text plain hit es = es.filterMap (place plain own changes)) ∨
      (¬ Clean text own changes es ∧ ∃ before c late u rest, scan text plain hit es = before ++
        .change c :: late ∧ es.filterMap (place plain own changes) = before ++ .plain u :: rest ∧
          .change c ∈ rest) := by
  have hinj : ∀ c ∈ changes, ∀ d ∈ changes, own c = own d → c = d := fun c hc d hd hown =>
    hall.ownText c hc d hd (congrArg text hown)
  induction es generalizing front hit with
  | nil =>
    refine Or.inl ⟨fun before e back he => ?_, rfl⟩
    cases before <;> cases he
  | cons e es ih =>
    have hnext : Entries text plain own changes ((front ++ [e]) ++ es) := by
      rw [List.append_assoc, List.singleton_append]
      exact hall
    rw [scan, filterMap_place]
    cases hhit : hit (text e) with
    | none =>
      have hother : ∀ c ∈ changes, own c ≠ e := by
        intro c hc he
        have hwaits := h.waits c hc (he ▸ List.mem_cons_self)
        rw [he, hhit] at hwaits
        cases hwaits
      simp only [place_other hother]
      rcases ih hnext (h.skip hhit) with ⟨hclean, heq⟩
        | ⟨hnot, before, c, late, u, rest, hscan, hplace, hrest⟩
      · refine Or.inl ⟨hclean.cons fun c hc hmem htext => ?_, by rw [heq]⟩
        rw [htext, h.waits c hc (List.mem_cons_of_mem _ hmem)] at hhit
        cases hhit
      · refine Or.inr ⟨fun hclean => hnot hclean.tail, ((plain e).map .plain).toList ++ before, c,
          late, u, rest, ?_, ?_, hrest⟩
        · rw [hscan, List.append_assoc]
        · rw [hplace, List.append_assoc]
    | some c =>
      obtain ⟨htext, hc, hmem⟩ := h.found _ c hhit
      by_cases hown : own c = e
      · have hplace : place plain own changes e = some (.change c) := hown ▸ place_own hinj hc
        simp only [hplace]
        rcases ih hnext (h.take hall hhit hown) with ⟨hclean, heq⟩ | ⟨hnot, before, d, late, u,
          rest, hscan, hplaces, hrest⟩
        · refine Or.inl ⟨hclean.cons fun d hd hmem htext' => ?_, by rw [heq]; rfl⟩
          rw [← hall.ownText c hc d hd (htext.symm.trans htext'), hown] at hmem
          exact (List.nodup_cons.1 (List.nodup_append.1 hall.nodup).2.1).1 hmem
        · refine Or.inr ⟨fun hclean => hnot hclean.tail, .change c :: before, d, late, u,
            rest, ?_, ?_, hrest⟩
          · rw [hscan, List.cons_append]
          · rw [hplaces]
            rfl
      · -- the change comes too early, at an entry that stands for a plain item
        have hlater := (List.mem_cons.1 hmem).resolve_left hown
        have hother : ∀ d ∈ changes, own d ≠ e := fun d hd he =>
          hown (hall.ownText d hd c hc ((congrArg text he).trans htext) ▸ he)
        obtain ⟨u, hu⟩ : ∃ u, plain e = some u := by
          rw [← Option.ne_none_iff_exists']
          intro hnone
          obtain ⟨f, hf, hsame⟩ := hall.behind front e es rfl hnone hother
          have hpast := h.past f hf
          rw [hsame, hhit] at hpast
          cases hpast
        refine Or.inr ⟨fun hclean => hclean [] e es rfl c hc hlater htext, [], c, _, u,
          es.filterMap (place plain own changes), rfl, ?_, ?_⟩
        · rw [place_other hother, hu]
          rfl
        · exact List.mem_filterMap.2 ⟨own c, hlater, place_own hinj hc⟩

end

end Hits

end Coopy.Lib
