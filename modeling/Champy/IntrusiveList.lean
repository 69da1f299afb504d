import Mathlib.Data.List.Basic
import Mathlib.Data.List.Induction
import Mathlib.Data.List.Nodup
import Mathlib.Logic.Function.Basic

/-!
# Doubly linked lists threaded through keyed nodes

The nodes of the list are the entries of some container, named by their keys,
and one sentinel that closes the list into a circle.  A link is `none` when it
is a null pointer, `some none` when it points to the sentinel, and
`some (some key)` when it points to the entry of that key.

`Links.Represents` says which keys are threaded and in which order.  Appending
before the sentinel and unlinking keep it, and walking the `next` links from
the sentinel reads the order back.

The file names nothing of any particular program.
-/

namespace Champy

open List Function

/-- The two link fields of every node. -/
structure Links (K : Type) where
  next : Option K → Option (Option K)
  prev : Option K → Option (Option K)

namespace Links

variable {K : Type}

/-- Only the sentinel, linked to itself. -/
def selfRef : Links K where
  next node := if node.isNone then some none else none
  prev node := if node.isNone then some none else none

section Editing

variable [DecidableEq K]

/-- Follow a pointer and assign a field there.  A null pointer is not
followed. -/
def assignThrough (field : Option K → Option (Option K)) (pointer value : Option (Option K)) :
    Option K → Option (Option K) :=
  match pointer with
  | none => field
  | some node => update field node value

/-- Thread an entry in just before the sentinel. -/
def pushBack (links : Links K) (key : K) : Links K where
  next := assignThrough (update links.next (some key) (some none))
    (links.prev none) (some (some key))
  prev := update (update links.prev (some key) (links.prev none)) none
    (some (some key))

/-- Take an entry out and clear its links. -/
def unlink (links : Links K) (key : K) : Links K where
  next := update
    (assignThrough links.next (links.prev (some key)) (links.next (some key))) (some key) none
  prev := update
    (assignThrough links.prev (links.next (some key)) (links.prev (some key))) (some key) none

end Editing

/-- The keys met on the way from a node back to the sentinel. -/
def walk (links : Links K) : Nat → Option (Option K) → List K
  | 0, _ => []
  | fuel + 1, some (some key) => key :: links.walk fuel (links.next (some key))
  | _ + 1, _ => []

/-- Following `field` from `start` meets the keys in order and then `stop`. -/
def Path (field : Option K → Option (Option K)) (start : Option K) : List K → Option K → Prop
  | [], stop => field start = some stop
  | key :: keys, stop => field start = some (some key) ∧ Path field (some key) keys stop

/-- The last node of a stretch that begins at `start`. -/
def lastNode (start : Option K) : List K → Option K
  | [] => start
  | key :: keys => lastNode (some key) keys

/-- The first node of a stretch that ends at `stop`. -/
def firstNode (stop : Option K) : List K → Option K
  | [] => stop
  | key :: _ => some key

/-- The links thread exactly the given keys, in order, and every other node has
null links. -/
structure Represents (links : Links K) (keys : List K) : Prop where
  nodup : keys.Nodup
  nextPath : Path links.next none keys none
  prevPath : Path links.prev none keys.reverse none
  nullLinks : ∀ key, key ∉ keys → links.next (some key) = none ∧ links.prev (some key) = none

/-! ## Paths -/

section Paths

variable {field other : Option K → Option (Option K)} {start stop : Option K} {front back : List K}

theorem path_append {key : K} : Path field start (front ++ key :: back) stop ↔
      Path field start front (some key) ∧ Path field (some key) back stop := by
  induction front generalizing start with
  | nil => rfl
  | cons first front ih =>
    rw [cons_append, Path, Path, ih, and_assoc]

variable {keys : List K}

theorem path_first (path : Path field start keys stop) :
    field start = some (firstNode stop keys) := by
  cases keys with
  | nil => exact path
  | cons key keys => exact path.1

theorem path_of_agree {start start' stop : Option K} (path : Path field start keys stop)
    (startAgrees : other start' = field start)
    (agrees : ∀ key ∈ keys, other (some key) = field (some key)) :
    Path other start' keys stop := by
  induction keys generalizing start start' with
  | nil => exact startAgrees.trans path
  | cons key keys ih =>
    refine ⟨startAgrees.trans path.1, ih path.2 (agrees key (by simp)) ?_⟩
    intro later mem
    exact agrees later (mem_cons_of_mem key mem)

theorem lastNode_mem (start : Option K) (keys : List K) :
    lastNode start keys = start ∨ ∃ key ∈ keys, lastNode start keys = some key := by
  induction keys generalizing start with
  | nil => exact .inl rfl
  | cons key keys ih =>
    rcases ih (some key) with atKey | ⟨later, mem, atLater⟩
    · exact .inr ⟨key, by simp, atKey⟩
    · exact .inr ⟨later, mem_cons_of_mem key mem, atLater⟩

theorem lastNode_append (start : Option K) (front : List K) (key : K) (back : List K) :
    lastNode start (front ++ key :: back) = lastNode (some key) back := by
  induction front generalizing start with
  | nil => rfl
  | cons first front ih => exact ih (some first)

theorem firstNode_reverse (node : Option K) (keys : List K) :
    firstNode node keys.reverse = lastNode node keys := by
  induction keys using reverseRecOn with
  | nil => rfl
  | append_singleton keys key _ =>
    rw [reverse_append, reverse_singleton, singleton_append, lastNode_append]
    rfl

theorem lastNode_ne_some {key : K} (absent : key ∉ keys) : lastNode none keys ≠ some key := by
  rcases lastNode_mem none keys with atStart | ⟨later, mem, atLater⟩
  · simp [atStart]
  · rw [atLater, ne_eq, Option.some.injEq]
    rintro rfl
    exact absent mem

theorem path_update_last [DecidableEq K] {start stop target : Option K}
    (path : Path field start keys stop)
    (nodup : keys.Nodup) (startNew : ∀ key ∈ keys, start ≠ some key) :
    Path (update field (lastNode start keys) (some target)) start keys target := by
  induction keys generalizing start with
  | nil => exact update_self _ _ _
  | cons key keys ih =>
    obtain ⟨keyNew, restNodup⟩ := nodup_cons.mp nodup
    have keyDistinct : ∀ later ∈ keys, some key ≠ some later := by
      rintro later mem eq
      cases eq
      exact keyNew mem
    refine ⟨?_, ih path.2 restNodup keyDistinct⟩
    have startIsNotLast : start ≠ lastNode (some key) keys := by
      rcases lastNode_mem (some key) keys with atKey | ⟨later, mem, atLater⟩
      · rw [atKey]
        exact startNew key (by simp)
      · rw [atLater]
        exact startNew later (mem_cons_of_mem key mem)
    rw [lastNode, update_of_ne startIsNotLast]
    exact path.1

theorem path_join (frontPath : Path field start front (firstNode stop back))
    (backPath : ∀ key rest, back = key :: rest → Path field (some key) rest stop) :
    Path field start (front ++ back) stop := by
  cases back with
  | nil =>
    rw [append_nil]
    exact frontPath
  | cons key rest => exact path_append.mpr ⟨frontPath, backPath key rest rfl⟩

theorem path_bypass [DecidableEq K] {key : K} (path : Path field none (front ++ key :: back) none)
    (nodup : (front ++ key :: back).Nodup) :
    Path (update (update field (lastNode none front) (field (some key)))
      (some key) none) none (front ++ back) none := by
  obtain ⟨frontPath, backPath⟩ := path_append.mp path
  obtain ⟨frontNodup, keyBackNodup, disjoint⟩ := nodup_append.mp nodup
  obtain ⟨keyNotInBack, backNodup⟩ := nodup_cons.mp keyBackNodup
  have keyNotInFront : key ∉ front := fun mem => disjoint key mem key (by simp) rfl
  have keyTarget : field (some key) = some (firstNode none back) := path_first backPath
  rw [keyTarget]
  apply path_join
  · have redirected : Path (update field (lastNode none front)
        (some (firstNode none back))) none front (firstNode none back) :=
      path_update_last frontPath frontNodup (by simp)
    apply path_of_agree redirected
    · exact update_of_ne (by simp) _ _
    · intro other mem
      apply update_of_ne
      simp only [ne_eq, Option.some.injEq]
      rintro rfl
      exact keyNotInFront mem
  · intro first rest backEq
    subst backEq
    have untouched : ∀ later ∈ first :: rest, update (update field (lastNode none front)
          (some (firstNode none (first :: rest)))) (some key) none (some later) =
            field (some later) := by
      intro later mem
      have laterNotKey : some later ≠ some key := by
        rintro eq
        cases eq
        exact keyNotInBack mem
      have laterNotLast : some later ≠ lastNode none front := by
        apply Ne.symm
        apply lastNode_ne_some
        intro inFront
        exact disjoint later inFront later (mem_cons_of_mem key mem) rfl
      rw [update_of_ne laterNotKey, update_of_ne laterNotLast]
    apply path_of_agree backPath.2 (untouched first (by simp))
    intro later mem
    exact untouched later (mem_cons_of_mem first mem)

theorem path_last (path : Path field start keys stop) :
    field (lastNode start keys) = some stop := by
  induction keys generalizing start with
  | nil => exact path
  | cons key keys ih => exact ih path.2

end Paths

/-! ## Operations -/

theorem represents_selfRef : (selfRef : Links K).Represents [] where
  nodup := nodup_nil
  nextPath := rfl
  prevPath := rfl
  nullLinks _ _ := ⟨rfl, rfl⟩

variable {links : Links K} {keys : List K} {key : K}

theorem Represents.prev_sentinel (threads : links.Represents keys) :
    links.prev none = some (lastNode none keys) := by
  rw [path_first threads.prevPath, firstNode_reverse]

variable [DecidableEq K]

theorem pushBack_next {last : Option K} (sentinelPrev : links.prev none = some last) :
    (links.pushBack key).next = update (update links.next (some key) (some none)) last
        (some (some key)) := by
  simp only [pushBack, sentinelPrev, assignThrough]

theorem pushBack_prev (links : Links K) (key : K) : (links.pushBack key).prev =
      update (update links.prev (some key) (links.prev none)) none (some (some key)) :=
  rfl

theorem unlink_next {before : Option K} (keyPrev : links.prev (some key) = some before) :
    (links.unlink key).next = update (update links.next before (links.next (some key)))
        (some key) none := by
  simp only [unlink, keyPrev, assignThrough]

theorem unlink_prev {after : Option K} (keyNext : links.next (some key) = some after) :
    (links.unlink key).prev = update (update links.prev after (links.prev (some key)))
        (some key) none := by
  simp only [unlink, keyNext, assignThrough]

theorem Represents.pushBack (threads : links.Represents keys) (unlinked : key ∉ keys) :
    (links.pushBack key).Represents (keys ++ [key]) := by
  have notKey : ∀ other ∈ keys, some other ≠ some key := by
    rintro other mem eq
    cases eq
    exact unlinked mem
  refine ⟨?_, ?_, ?_, ?_⟩
  · rw [nodup_append]
    refine ⟨threads.nodup, nodup_singleton key, ?_⟩
    intro other mem same sameMember eq
    rw [mem_singleton] at sameMember
    exact notKey other mem (congrArg some (eq.trans sameMember))
  · rw [pushBack_next threads.prev_sentinel, path_append]
    constructor
    · have extended : Path (update links.next (some key) (some none)) none keys none := by
        apply path_of_agree threads.nextPath (update_of_ne (by simp) _ _)
        intro other mem
        exact update_of_ne (notKey other mem) _ _
      exact path_update_last extended threads.nodup (by simp)
    · rw [Path, update_of_ne (lastNode_ne_some unlinked).symm, update_self]
  · rw [reverse_append, reverse_singleton, singleton_append, pushBack_prev]
    refine ⟨update_self _ _ _, path_of_agree threads.prevPath ?_ ?_⟩
    · rw [update_of_ne (by simp), update_self]
    · intro other mem
      rw [update_of_ne (by simp), update_of_ne (notKey other (mem_reverse.mp mem))]
  · intro other absent
    rw [mem_append, mem_singleton, not_or] at absent
    have otherNotKey : some other ≠ some key := by simpa using absent.2
    obtain ⟨nextNull, prevNull⟩ := threads.nullLinks other absent.1
    constructor
    · rw [pushBack_next threads.prev_sentinel, update_of_ne (lastNode_ne_some absent.1).symm,
        update_of_ne otherNotKey, nextNull]
    · rw [pushBack_prev, update_of_ne (by simp), update_of_ne otherNotKey, prevNull]

theorem Represents.unlink {front back : List K} (threads : links.Represents (front ++ key :: back)) :
    (links.unlink key).Represents (front ++ back) := by
  have reversed : (front ++ key :: back).reverse = back.reverse ++ key :: front.reverse := by
    simp
  have prevPath := threads.prevPath
  rw [reversed] at prevPath
  have before : links.prev (some key) = some (lastNode none front) := by
    rw [path_first (path_append.mp prevPath).2, firstNode_reverse]
  have after : links.next (some key) = some (lastNode none back.reverse) := by
    rw [path_first (path_append.mp threads.nextPath).2, ← firstNode_reverse, reverse_reverse]
  have reversedNodup : (back.reverse ++ key :: front.reverse).Nodup := by
    rw [← reversed]
    exact nodup_reverse.mpr threads.nodup
  obtain ⟨frontNodup, keyBackNodup, disjoint⟩ := nodup_append.mp threads.nodup
  refine ⟨?_, ?_, ?_, ?_⟩
  · rw [nodup_append]
    refine ⟨frontNodup, (nodup_cons.mp keyBackNodup).2, ?_⟩
    intro first firstMember second secondMember
    exact disjoint first firstMember second (mem_cons_of_mem key secondMember)
  · rw [unlink_next before]
    exact path_bypass threads.nextPath threads.nodup
  · rw [unlink_prev after, reverse_append]
    exact path_bypass prevPath reversedNodup
  · intro other absent
    rw [mem_append, not_or] at absent
    rw [unlink_next before, unlink_prev after]
    by_cases same : other = key
    · subst same
      exact ⟨update_self _ _ _, update_self _ _ _⟩
    · have otherNotKey : some other ≠ some key := by simpa using same
      have otherAbsent : other ∉ front ++ key :: back := by
        simp [absent.1, absent.2, same]
      obtain ⟨nextNull, prevNull⟩ := threads.nullLinks other otherAbsent
      have notAfter : some other ≠ lastNode none back.reverse :=
        (lastNode_ne_some (by simpa using absent.2)).symm
      constructor
      · rw [update_of_ne otherNotKey, update_of_ne (lastNode_ne_some absent.1).symm, nextNull]
      · rw [update_of_ne otherNotKey, update_of_ne notAfter, prevNull]

omit [DecidableEq K] in
theorem Represents.links_inverse (threads : links.Represents keys) (linked : key ∈ keys) :
    (∃ after, links.next (some key) = some after ∧ links.prev after = some (some key)) ∧
      ∃ before, links.prev (some key) = some before ∧ links.next before = some (some key) := by
  obtain ⟨front, back, rfl⟩ := append_of_mem linked
  obtain ⟨frontPath, backPath⟩ := path_append.mp threads.nextPath
  have reversed := threads.prevPath
  rw [reverse_append, reverse_cons, append_assoc, singleton_append, path_append] at reversed
  obtain ⟨backReversed, frontReversed⟩ := reversed
  refine ⟨⟨firstNode none back, path_first backPath, ?_⟩,
    ⟨firstNode none front.reverse, path_first frontReversed, ?_⟩⟩
  · have last := path_last backReversed
    rw [← firstNode_reverse, reverse_reverse] at last
    exact last
  · rw [firstNode_reverse]
    exact path_last frontPath

omit [DecidableEq K] in
private theorem walk_of_path {start : Option K} {fuel : Nat}
    (path : Path links.next start keys none) (enough : keys.length ≤ fuel) :
    links.walk fuel (links.next start) = keys := by
  induction keys generalizing start fuel with
  | nil =>
    rw [show links.next start = some none from path]
    cases fuel <;> rfl
  | cons key keys ih =>
    cases fuel with
    | zero => simp at enough
    | succ fuel =>
      rw [path.1, walk, ih path.2 (by simpa using enough)]

omit [DecidableEq K] in
theorem Represents.walk_eq {fuel : Nat} (threads : links.Represents keys)
    (enough : keys.length ≤ fuel) :
    links.walk fuel (links.next none) = keys :=
  walk_of_path threads.nextPath enough

end Links

end Champy
