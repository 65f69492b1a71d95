import EngineHost.Proofs.Reading

/-!
The ways to read the arguments of a call, as one kind of operation: by name, as a whole, and by iterations
of which any number may be under way.
-/
namespace EngineHost

open Host

variable {S : Embedding}

/-- One reading of the arguments of a call. Their iterations are numbered in the order they are started. -/
inductive Access where
  | demand (name : Value)
  | maybe (name fallback : Value)
  | size
  | contains (name : Value)
  | iterate
  | next (iteration : Nat)

namespace Access

/-- Reads the arguments. Of all iterations of the program, theirs begin at `base`. -/
def run (base id : Nat) : Access → Host S (Option Value)
  | .demand name => some <$> Args.demand id name
  | .maybe name fallback => some <$> Args.maybe id name fallback
  | .size => (fun n : Nat => some (.int n)) <$> Args.size id
  | .contains name => (fun b => some (.bool b)) <$> Args.contains id name
  | .iterate => some <$> Args.iterate id
  | .next iteration => Args.next (base + iteration)

/-- Reads one after the other. A failure is a reply like any other. -/
def runAll (base id : Nat) : List Access → World S → List (Except Failure (Option Value)) × World S
  | [], w => ([], w)
  | a :: rest, w =>
    let (reply, w') := exec (a.run base id) w
    let (replies, w'') := runAll base id rest w'
    (reply :: replies, w'')

end Access

namespace Host

variable {w : World S} {cursor : Nat} {c : Cursor}

/-- An iteration at its end, unless it gets on. -/
def ending (w : World S) (cursor : Nat) (c : Cursor) : World S :=
  { w with cursors := w.cursors.modify cursor fun _ => { c with finished := true } }

theorem exec_next_none (hc : w.cursors[cursor]? = none) :
    exec (Args.next cursor) w = (.error (.shape .wrongKind), w) := by
  simp only [Args.next, exec_bind, exec_get, hc]
  rfl

theorem exec_next_finished (hc : w.cursors[cursor]? = some c) (hfinished : c.finished = true) :
    exec (Args.next cursor) w = (.ok none, w) := by
  simp only [Args.next, exec_bind, exec_get, hc, hfinished, if_true, exec_pure]

/-- The first step asks whether the arguments are live. -/
theorem exec_next_first (hc : w.cursors[cursor]? = some c) (hgoing : c.finished = false)
    (hfirst : c.started = false) :
    exec (Args.next cursor) w =
      exec (checkLive c.args >>= fun _ => Args.advance cursor c) (ending w cursor c) := by
  obtain ⟨args, position, started, finished⟩ := c
  obtain rfl := hgoing
  obtain rfl := hfirst
  unfold Args.next
  rw [exec_bind, exec_get]
  simp only [hc]
  rfl

/-- No later step does. -/
theorem exec_next_later (hc : w.cursors[cursor]? = some c) (hgoing : c.finished = false)
    (hlater : c.started = true) :
    exec (Args.next cursor) w = exec (Args.advance cursor c) (ending w cursor c) := by
  obtain ⟨args, position, started, finished⟩ := c
  obtain rfl := hgoing
  obtain rfl := hlater
  unfold Args.next
  rw [exec_bind, exec_get]
  simp only [hc]
  rfl

end Host

end EngineHost
