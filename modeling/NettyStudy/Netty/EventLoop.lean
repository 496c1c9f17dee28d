/-
  NettyStudy.Netty.EventLoop — event loops and their task queues. A task is issued on one
  loop (`origin`) and runs on one (`home`): issued on the loop it runs on it runs at once,
  else it is put at the end of that loop's queue, and a loop runs its queue from the front.
  A task may fail when its turn comes; those that did not are kept in the order they ran.

  A queue holds only tasks that run on its loop and were issued on another one: that is
  part of the type, so a loop's own tasks never wait behind each other.

  Proved, of the tasks of a lane (one origin, one home):
  - `course_execute`, `course_execute_other`, `course_run`: what has run of a lane, then
    what is queued of it, grows by the tasks issued on it, at the end, and by nothing else.
  - `performed_prefix`, `performed_eq`: what has run is a start of that, and with an empty
    queue all of it.
  - `Holds`: what is true of every task when it is issued stays true of every task kept.
-/

import Mathlib.Logic.Function.Basic
import Mathlib.Data.List.Basic

namespace NettyStudy.Netty

open Function

variable {α : Type}

structure EventLoops (origin home : α → Nat) where
  queue : Nat → List α
  performed : List α
  queued : ∀ ℓ, ∀ x ∈ queue ℓ, home x = ℓ ∧ origin x ≠ ℓ

/-- The tasks `p` tells are issued on one loop and run on one. -/
structure Lane (origin home : α → Nat) (p : α → Bool) (o ℓ : Nat) : Prop where
  origin : ∀ x, p x = true → origin x = o
  home : ∀ x, p x = true → home x = ℓ

namespace EventLoops

variable {origin home : α → Nat}

def idle : EventLoops origin home := ⟨fun _ => [], [], by simp⟩

variable (l : EventLoops origin home)

def perform (x : α) (ok : Bool) : EventLoops origin home :=
  { l with performed := if ok then l.performed ++ [x] else l.performed }

def post (x : α) (h : origin x ≠ home x) : EventLoops origin home :=
  { l with
    queue := update l.queue (home x) (l.queue (home x) ++ [x])
    queued := by
      refine (forall_update_iff l.queue fun ℓ xs => ∀ y ∈ xs, home y = ℓ ∧ origin y ≠ ℓ).mpr
        ⟨fun y hy => ?_, fun ℓ _ => l.queued ℓ⟩
      rcases List.mem_append.mp hy with hy | hy
      · exact l.queued _ y hy
      · rw [List.mem_singleton.mp hy]
        exact ⟨rfl, h⟩ }

/-- A task is issued; `ok` tells whether it succeeds if it runs at once. -/
def execute (x : α) (ok : Bool) : EventLoops origin home :=
  if h : origin x = home x then l.perform x ok else l.post x h

/-- Loop `m` runs the task at the front of its queue. -/
def run (m : Nat) (ok : α → Bool) : EventLoops origin home where
  queue := update l.queue m ((l.queue m).drop 1)
  performed := l.performed ++ ((l.queue m).take 1).filter ok
  queued := (forall_update_iff l.queue fun ℓ xs => ∀ y ∈ xs, home y = ℓ ∧ origin y ≠ ℓ).mpr
    ⟨fun y hy => l.queued m y (List.mem_of_mem_drop hy), fun ℓ _ => l.queued ℓ⟩

/-- What has run of a lane, then what is queued of it. -/
def course (p : α → Bool) (ℓ : Nat) : List α := l.performed.filter p ++ (l.queue ℓ).filter p

theorem performed_prefix (p : α → Bool) (ℓ : Nat) : l.performed.filter p <+: l.course p ℓ := List.prefix_append _ _

theorem performed_eq {p : α → Bool} {ℓ : Nat} (h : l.queue ℓ = []) : l.performed.filter p = l.course p ℓ := by
  rw [course, h, List.filter_nil, List.append_nil]

variable {l} {p : α → Bool} {o ℓ : Nat} {x : α}

/-! ## Lanes -/

/-- A lane's tasks are queued on its own loop only. -/
theorem queue_other (hp : Lane origin home p o ℓ) {m : Nat} (hm : m ≠ ℓ) : (l.queue m).filter p = [] := by
  rw [List.filter_eq_nil_iff]
  intro x hx hpx
  exact hm ((l.queued m x hx).1.symm.trans (hp.home x hpx))

/-- Tasks issued on the loop they run on are never queued. -/
theorem queue_direct (hp : Lane origin home p ℓ ℓ) : (l.queue ℓ).filter p = [] := by
  rw [List.filter_eq_nil_iff]
  intro x hx hpx
  exact (l.queued ℓ x hx).2 (hp.origin x hpx)

theorem course_execute (hp : Lane origin home p o ℓ) (hx : p x = true) :
    (l.execute x true).course p ℓ = l.course p ℓ ++ [x] := by
  have hpx : [x].filter p = [x] := by simp [hx]
  rw [execute]
  split
  · rename_i h
    have ho : o = ℓ := by rw [← hp.origin x hx, h, hp.home x hx]
    subst ho
    show (l.performed ++ [x]).filter p ++ (l.queue o).filter p = _
    rw [course, queue_direct hp, List.filter_append, hpx, List.append_nil, List.append_nil]
  · show l.performed.filter p ++ (update l.queue (home x) (l.queue (home x) ++ [x]) ℓ).filter p = _
    rw [hp.home x hx, update_self, List.filter_append, hpx, course, List.append_assoc]

theorem course_execute_other (hx : p x = false) (ok : Bool) : (l.execute x ok).course p ℓ = l.course p ℓ := by
  have hpx : [x].filter p = [] := by simp [hx]
  rw [execute]
  split
  · cases ok with
    | false => rfl
    | true =>
      show (l.performed ++ [x]).filter p ++ (l.queue ℓ).filter p = _
      rw [List.filter_append, hpx, List.append_nil]
      rfl
  · show l.performed.filter p ++ (update l.queue (home x) (l.queue (home x) ++ [x]) ℓ).filter p = _
    by_cases hℓ : ℓ = home x
    · rw [hℓ, update_self, List.filter_append, hpx, List.append_nil]
      rfl
    · rw [update_of_ne hℓ]
      rfl

/-- A loop runs its queue, and no task of the lane fails. -/
theorem course_run (hp : Lane origin home p o ℓ) {ok : α → Bool} (hok : ∀ x, p x = true → ok x = true) (m : Nat) :
    (l.run m ok).course p ℓ = l.course p ℓ := by
  -- the front of the queue moves to what has run, whole as far as the lane sees it
  have hfront : (((l.queue m).take 1).filter ok).filter p = ((l.queue m).take 1).filter p := by
    rw [List.filter_filter]
    refine List.filter_congr fun x _ => ?_
    cases hx : p x with
    | false => rfl
    | true => rw [hok x hx]; rfl
  show (l.performed ++ ((l.queue m).take 1).filter ok).filter p ++
    (update l.queue m ((l.queue m).drop 1) ℓ).filter p = _
  rw [List.filter_append, hfront, List.append_assoc]
  by_cases hm : m = ℓ
  · rw [hm, update_self, ← List.filter_append, List.take_append_drop]
    rfl
  · have hnone : ((l.queue m).take 1).filter p = [] :=
      List.sublist_nil.mp (queue_other hp hm ▸ (List.take_sublist 1 _).filter p)
    rw [update_of_ne (Ne.symm hm), hnone, List.nil_append]
    rfl

/-! ## Facts about the tasks kept -/

structure Holds (l : EventLoops origin home) (Q : α → Prop) : Prop where
  performed : ∀ x ∈ l.performed, Q x
  queue : ∀ m, ∀ x ∈ l.queue m, Q x

variable {Q R : α → Prop}

theorem holds_idle : Holds (idle : EventLoops origin home) Q := ⟨nofun, fun _ => nofun⟩

theorem Holds.mono (h : Holds l Q) (hR : ∀ x, Q x → R x) : Holds l R :=
  ⟨fun x hx => hR x (h.performed x hx), fun m x hx => hR x (h.queue m x hx)⟩

theorem Holds.execute (h : Holds l Q) (hx : Q x) (ok : Bool) : Holds (l.execute x ok) Q := by
  rw [EventLoops.execute]
  split
  · cases ok with
    | false => exact h
    | true =>
      refine ⟨fun y hy => ?_, h.queue⟩
      rcases List.mem_append.mp hy with hy | hy
      · exact h.performed y hy
      · exact List.mem_singleton.mp hy ▸ hx
  · refine ⟨h.performed, (forall_update_iff l.queue fun _ xs => ∀ y ∈ xs, Q y).mpr
      ⟨fun y hy => ?_, fun m _ => h.queue m⟩⟩
    rcases List.mem_append.mp hy with hy | hy
    · exact h.queue _ y hy
    · exact List.mem_singleton.mp hy ▸ hx

theorem Holds.run (h : Holds l Q) (m : Nat) (ok : α → Bool) : Holds (l.run m ok) Q := by
  constructor
  · intro y hy
    rcases List.mem_append.mp hy with hy | hy
    · exact h.performed y hy
    · exact h.queue m y (List.mem_of_mem_take (List.mem_filter.mp hy).1)
  · exact (forall_update_iff l.queue fun _ xs => ∀ y ∈ xs, Q y).mpr
      ⟨fun y hy => h.queue m y (List.mem_of_mem_drop hy), fun ℓ _ => h.queue ℓ⟩

/-- A lane none of whose tasks is kept has run nothing and has nothing queued. -/
theorem course_nil (h : Holds l fun x => p x = false) : l.course p ℓ = [] := by
  have hf : ∀ xs : List α, (∀ x ∈ xs, p x = false) → xs.filter p = [] := by
    intro xs hxs
    rw [List.filter_eq_nil_iff]
    intro x hx
    simp [hxs x hx]
  rw [course, hf _ h.performed, hf _ (h.queue ℓ), List.append_nil]

end EventLoops

end NettyStudy.Netty
