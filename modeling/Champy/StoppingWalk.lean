import Mathlib.Data.List.Basic

/-!
# Walks that stop and walks that collect

A walk hands a state on from item to item and stops at the first item that fails.  Another
walk over the same items never stops and notes every answer, with `none` for a failure.  If
each item of the second walk shows what the first one does, then so do the two walks: the
collected failures hold the one at which the first walk stops, and no failure before it.
-/

namespace Champy

/-- A loop that hands a state on, collects what each round returns and stops at the first
round that fails. -/
def walkEach {L ε α β : Type} (step : L → α → Except ε (β × L)) :
    L → List α → Except ε (List β × L)
  | state, [] => .ok ([], state)
  | state, item :: items => do
      let first ← step state item
      let rest ← walkEach step first.2 items
      .ok (first.1 :: rest.1, rest.2)

section Rounds

variable {L ε α β : Type} {step : L → α → Except ε (β × L)} {state next : L} {item : α}
  {items : List α}

theorem walkEach_cons_eq_ok {results : List β} :
    walkEach step state (item :: items) = .ok (results, next) ↔
      ∃ first middle rest, step state item = .ok (first, middle) ∧
        walkEach step middle items = .ok (rest, next) ∧ results = first :: rest := by
  constructor
  · intro walked
    rw [walkEach] at walked
    cases stepped : step state item with
    | error failure =>
      rw [stepped] at walked
      cases walked
    | ok first =>
      rw [stepped] at walked
      cases later : walkEach step first.2 items with
      | error failure =>
        simp only [later, bind, Except.bind] at walked
        cases walked
      | ok rest =>
        simp only [later, bind, Except.bind] at walked
        cases walked
        exact ⟨first.1, first.2, rest.1, rfl, later, rfl⟩
  · intro split
    obtain ⟨first, middle, rest, stepped, later, rfl⟩ := split
    rw [walkEach, stepped]
    simp only [later, bind, Except.bind]

theorem walkEach_append_eq_ok {later : List α} {results : List β} :
    walkEach step state (items ++ later) = .ok (results, next) ↔
      ∃ first middle rest, walkEach step state items = .ok (first, middle) ∧
        walkEach step middle later = .ok (rest, next) ∧ results = first ++ rest := by
  induction items generalizing state results with
  | nil =>
    constructor
    · intro walked
      exact ⟨[], state, results, rfl, walked, rfl⟩
    · intro split
      obtain ⟨first, middle, rest, walked, walkedLater, rfl⟩ := split
      cases walked
      exact walkedLater
  | cons item items ih =>
    rw [List.cons_append, walkEach_cons_eq_ok]
    constructor
    · intro split
      obtain ⟨first, middle, rest, stepped, walked, rfl⟩ := split
      obtain ⟨early, between, late, walkedEarly, walkedLate, rfl⟩ := ih.mp walked
      exact ⟨first :: early, between, late,
        walkEach_cons_eq_ok.mpr ⟨first, middle, early, stepped, walkedEarly, rfl⟩, walkedLate,
        rfl⟩
    · intro split
      obtain ⟨early, between, late, walkedEarly, walkedLate, rfl⟩ := split
      obtain ⟨first, middle, rest, stepped, walked, rfl⟩ := walkEach_cons_eq_ok.mp walkedEarly
      exact ⟨first, middle, rest ++ late, stepped,
        ih.mpr ⟨rest, between, late, walked, walkedLate, rfl⟩, rfl⟩

theorem walkEach_cons_eq_error {failure : ε}
    (walked : walkEach step state (item :: items) = .error failure) :
    step state item = .error failure ∨ ∃ first middle, step state item = .ok (first, middle) ∧
        walkEach step middle items = .error failure := by
  rw [walkEach] at walked
  cases stepped : step state item with
  | error other =>
    rw [stepped] at walked
    cases walked
    exact Or.inl rfl
  | ok first =>
    rw [stepped] at walked
    cases later : walkEach step first.2 items with
    | error other =>
      simp only [later, bind, Except.bind] at walked
      cases walked
      exact Or.inr ⟨first.1, first.2, rfl, later⟩
    | ok rest =>
      simp only [later, bind, Except.bind] at walked
      cases walked

end Rounds

/-- A step that collects answers to some questions shows a step that stops at a question.
Both act alike on what a collecting state means, for as long as the second one goes on. -/
structure Collects {S L K V β : Type} (meaning : S → L) (entries : S → List (K × Option V))
    (before : K → K → Prop) (collect : S → S) (walk : L → Except K (β × L))
    (questions : List K) : Prop where
  goesOn : ∀ state result next, walk (meaning state) = .ok (result, next) →
    meaning (collect state) = next ∧
      ∀ question, (question, none) ∈ entries (collect state) → (question, none) ∈ entries state
  stops : ∀ state failed, walk (meaning state) = .error failed →
    failed ∈ questions ∧ (failed, none) ∈ entries (collect state) ∧
      ∀ question, (question, none) ∈ entries (collect state) →
        (question, none) ∈ entries state ∨ question = failed ∨ before failed question
  keeps : ∀ state entry, entry ∈ entries state → entry ∈ entries (collect state)
  adds : ∀ state entry, entry ∈ entries (collect state) →
    entry ∈ entries state ∨ entry.1 ∈ questions

namespace Collects

variable {S L K V α β : Type} {meaning : S → L} {entries : S → List (K × Option V)}
  {before : K → K → Prop}

/-- Steps that show each other, one item after the other. -/
theorem each {collect : S → α → S} {walk : L → α → Except K (β × L)} {questions : α → List K}
    {items : List α}
    (shown : ∀ item ∈ items, Collects meaning entries before (fun state => collect state item)
      (fun state => walk state item) (questions item))
    (ordered : items.Pairwise fun first second =>
      ∀ early ∈ questions first, ∀ late ∈ questions second, before early late) :
    Collects meaning entries before (fun state => items.foldl collect state)
      (fun state => walkEach walk state items) (items.flatMap questions) := by
  induction items with
  | nil =>
    exact {
      goesOn := by
        intro state res next walked
        cases walked
        exact ⟨rfl, fun _ mem => mem⟩
      stops := nofun
      keeps := fun _ _ mem => mem
      adds := fun _ _ mem => Or.inl mem }
  | cons item items ih =>
    rw [List.forall_mem_cons] at shown
    rw [List.pairwise_cons] at ordered
    have first := shown.1
    have later := ih shown.2 ordered.2
    refine ⟨?_, ?_, ?_, ?_⟩
    · intro state results next walked
      obtain ⟨res, middle, rest, stepped, restWalked, rfl⟩ := walkEach_cons_eq_ok.mp walked
      obtain ⟨meant, nothingNew⟩ := first.goesOn state res middle stepped
      rw [← meant] at restWalked
      obtain ⟨meantLater, nothingLater⟩ := later.goesOn _ rest next restWalked
      exact ⟨meantLater, fun question mem => nothingNew question (nothingLater question mem)⟩
    · intro state failed walked
      rw [List.flatMap_cons]
      rcases walkEach_cons_eq_error walked with stepped | ⟨res, middle, stepped, restWalked⟩
      · obtain ⟨asked, noted, least⟩ := first.stops state failed stepped
        refine ⟨List.mem_append_left _ asked, later.keeps _ _ noted, ?_⟩
        intro question mem
        -- What the later items add comes after every question of this one.
        rcases later.adds _ _ mem with earlier | added
        · exact least question earlier
        · obtain ⟨other, otherMem, asks⟩ := List.mem_flatMap.mp added
          exact Or.inr (Or.inr (ordered.1 other otherMem failed asked question asks))
      · obtain ⟨meant, nothingNew⟩ := first.goesOn state res middle stepped
        rw [← meant] at restWalked
        obtain ⟨asked, noted, least⟩ := later.stops _ failed restWalked
        refine ⟨List.mem_append_right _ asked, noted, ?_⟩
        intro question mem
        rcases least question mem with earlier | after
        · exact Or.inl (nothingNew question earlier)
        · exact Or.inr after
    · intro state entry mem
      exact later.keeps _ entry (first.keeps state entry mem)
    · intro state entry mem
      rw [List.flatMap_cons, List.mem_append]
      rcases later.adds _ entry mem with earlier | added
      · rcases first.adds state entry earlier with old | new
        · exact Or.inl old
        · exact Or.inr (Or.inl new)
      · exact Or.inr (Or.inr added)

/-- A step inside other states, with work before and after it that notes no answers. -/
theorem reframe {T : Type} {meaningAround : T → L} {entriesAround : T → List (K × Option V)}
    {collect : S → S} {walk : L → Except K (β × L)} {questions : List K}
    (shown : Collects meaning entries before collect walk questions)
    (enter : T → S) (leave : T → S → T) (change : L → L)
    (enterMeaning : ∀ around, meaning (enter around) = meaningAround around)
    (enterEntries : ∀ around, entries (enter around) = entriesAround around)
    (leaveMeaning : ∀ around state, meaningAround (leave around state) = change (meaning state))
    (leaveEntries : ∀ around state, entriesAround (leave around state) = entries state) :
    Collects meaningAround entriesAround before
      (fun around => leave around (collect (enter around)))
      (fun state => (walk state).map fun res => (res.1, change res.2)) questions := by
  refine ⟨?_, ?_, ?_, ?_⟩
  · intro around res next walked
    rw [← enterMeaning] at walked
    cases inner : walk (meaning (enter around)) with
    | error failed =>
      rw [inner] at walked
      cases walked
    | ok innerResult =>
      rw [inner] at walked
      cases walked
      obtain ⟨meant, nothingNew⟩ := shown.goesOn _ innerResult.1 innerResult.2 inner
      rw [leaveMeaning, leaveEntries, ← enterEntries, meant]
      exact ⟨rfl, nothingNew⟩
  · intro around failed walked
    rw [← enterMeaning] at walked
    cases inner : walk (meaning (enter around)) with
    | error innerFailed =>
      rw [inner] at walked
      cases walked
      rw [leaveEntries, ← enterEntries]
      exact shown.stops _ failed inner
    | ok innerResult =>
      rw [inner] at walked
      cases walked
  · intro around entry mem
    rw [leaveEntries]
    rw [← enterEntries] at mem
    exact shown.keeps _ entry mem
  · intro around entry mem
    rw [leaveEntries] at mem
    rw [← enterEntries]
    exact shown.adds _ entry mem

end Collects

end Champy
