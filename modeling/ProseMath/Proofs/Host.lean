import Mathlib.Tactic.Common
import ProseMath.Host

/-!
# Running on a world

What the operations of a `World` do when they are run, and how the steps of a command follow one
another: each runs in the world that the one before it has left, up to the first that fails.

* `Action.run_bind`, `World.run_bind`: two steps.
* `Action.run_ofSystem`, `Action.run_ofExcept`: steps that may fail.
* `World.run_stat`, `World.run_read`, `World.run_makeDirectories`, `World.run_write`: operations on
  files.
* `World.run_print`: printing, which takes one write.
-/

namespace ProseMath

namespace Action

variable {α β : Type}

theorem run_bind (x : Action (StateM World) α) (f : α → Action (StateM World) β) (w : World) :
    (x >>= f).run.run w =
      match x.run.run w with
      | (.ok a, after) => (f a).run.run after
      | (.error e, after) => (.error e, after) := by
  rw [ExceptT.run_bind, StateT.run_bind]
  rcases x.run.run w with ⟨_ | _, after⟩ <;> rfl

theorem run_liftM (x : StateM World α) (w : World) :
    (liftM x : Action (StateM World) α).run.run w = (.ok (x.run w).1, (x.run w).2) := rfl

theorem run_ofSystem (context : String) (operation : StateM World (Except PathError α))
    (w : World) :
    (ofSystem context operation).run.run w =
      ((operation.run w).1.mapError fun e => ⟨[context.toList], .file e⟩, (operation.run w).2) := by
  rw [ofSystem, run_bind, run_liftM]
  cases (operation.run w).1 <;> rfl

theorem run_ofExcept {ε : Type} (context : List Text) (cause : ε → Cause) (r : Except ε α)
    (w : World) :
    (ofExcept context cause r : Action (StateM World) α).run.run w =
      (r.mapError fun e => ⟨context, cause e⟩, w) := by
  cases r <;> rfl

end Action

namespace World

theorem run_bind {α β : Type} (x : StateM World α) (f : α → StateM World β) (w : World) :
    (x >>= f).run w = (f (x.run w).1).run (x.run w).2 := rfl

theorem run_stat (p : Text) (w : World) :
    (Host.stat p : StateM World _).run w = (w.files.stat p, w) := rfl

theorem run_read (p : Text) (w : World) :
    (Host.read p : StateM World _).run w = (w.files.read p, w) := rfl

theorem run_makeDirectories (p : Text) (w : World) :
    (Host.makeDirectories p : StateM World _).run w = w.change (w.files.makeDirectories p) := rfl

theorem run_write (p : Text) (content : ByteArray) (w : World) :
    (Host.write p content : StateM World _).run w = w.change (w.files.write p content) := rfl

/-- The world after its output has taken a text, in one write. -/
def printed (w : World) (t : Text) : World :=
  { w with output := ⟨w.output.written ++ t, w.output.remaining.map (· - 1)⟩ }

theorem run_print (t : Text) (w : World) :
    (Host.print t : StateM World Bool).run w =
      if w.output.remaining = some 0 then (false, w) else (true, w.printed t) := by
  obtain ⟨files, environment, input, ⟨written, _ | _ | n⟩, errors, time⟩ := w <;> rfl

end World

end ProseMath
