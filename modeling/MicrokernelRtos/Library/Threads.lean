/-
Threads with contexts of their own, of which one at a time is running.

This is what multitasking is for: a thread computes on its own context and on
nothing else, a switch changes which thread is running and no context, and threads
come and go.  A thread that is suspended is therefore found as it was left, however
many others have run in between.
-/

import Mathlib.Logic.Function.Basic

namespace MicrokernelRtos

universe u v

/-- The context of every thread there is, and the thread that is running. -/
structure Threads (Thread : Type u) (Context : Type v) where
  running : Option Thread
  context : Thread → Option Context

namespace Threads

variable {Thread : Type u} {Context : Type v} [DecidableEq Thread]

/-- What is done with threads: which one is running changes, and threads come and go. -/
inductive Managed : Threads Thread Context → Threads Thread Context → Prop where
  | rests {s : Threads Thread Context} : Managed s s
  | switches {s : Threads Thread Context} (t : Thread) (lives : s.context t ≠ none) :
      Managed s { s with running := some t }
  | spawns {s : Threads Thread Context} (t : Thread) (entry : Context)
      (fresh : s.context t = none) :
      Managed s { s with context := Function.update s.context t (some entry) }
  | reaps {s : Threads Thread Context} (t : Thread) (waits : s.running ≠ some t) :
      Managed s { s with context := Function.update s.context t none }

/-- What threads do: the one that is running changes its own context. -/
inductive Step : Threads Thread Context → Threads Thread Context → Prop where
  | computes {s : Threads Thread Context} {t : Thread} (result : Context)
      (runs : s.running = some t) :
      Step s { s with context := Function.update s.context t (some result) }
  | manages {s after : Threads Thread Context} (managed : Managed s after) : Step s after

theorem Managed.context_eq {s after : Threads Thread Context} {t : Thread}
    (managed : Managed s after) (lived : s.context t ≠ none) (lives : after.context t ≠ none) :
    after.context t = s.context t := by
  cases managed with
  | rests => rfl
  | switches other alive => rfl
  | spawns other entry fresh =>
      have different : t ≠ other := by
        intro same
        subst same
        exact lived fresh
      exact Function.update_of_ne different _ _
  | reaps other waits =>
      have different : t ≠ other := by
        intro same
        subst same
        exact lives (Function.update_self _ _ _)
      exact Function.update_of_ne different _ _

theorem Step.context_eq {s after : Threads Thread Context} {t : Thread} (taken : Step s after)
    (suspended : s.running ≠ some t) (lived : s.context t ≠ none)
    (lives : after.context t ≠ none) : after.context t = s.context t := by
  cases taken with
  | @computes other result runs =>
      have different : t ≠ other := by
        intro same
        subst same
        exact suspended runs
      exact Function.update_of_ne different _ _
  | manages managed => exact managed.context_eq lived lives

/-- A run during which a thread exists and is not running. -/
inductive Suspends (t : Thread) : Threads Thread Context → Threads Thread Context → Prop where
  | start {s : Threads Thread Context} (lives : s.context t ≠ none) : Suspends t s s
  | next {first s after : Threads Thread Context} (before : Suspends t first s)
      (suspended : s.running ≠ some t) (taken : Step s after)
      (lives : after.context t ≠ none) : Suspends t first after

theorem Suspends.lives {t : Thread} {first last : Threads Thread Context}
    (run : Suspends t first last) : last.context t ≠ none := by
  cases run with
  | start lives => exact lives
  | next _ _ _ lives => exact lives

/-- A suspended thread is found as it was left. -/
theorem Suspends.context_eq {t : Thread} {first last : Threads Thread Context}
    (run : Suspends t first last) : last.context t = first.context t := by
  induction run with
  | start _ => rfl
  | next before suspended taken lives ih =>
      exact (taken.context_eq suspended before.lives lives).trans ih

end Threads

end MicrokernelRtos
