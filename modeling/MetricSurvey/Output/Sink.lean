/-
Sinks, which finished snapshots are offered to, and groups of them.

A sink takes or refuses a snapshot at once, as its own past decides. Every sink of a group is offered every snapshot; a
refusal is counted and is nobody else's business.
-/
import MetricSurvey.Output.Rendering

namespace MetricSurvey

/-- why a sink refuses a snapshot -/
inductive SinkError where
  | queueFull
  | disconnected
deriving DecidableEq

def SinkError.message : SinkError → String
  | .queueFull => "queue full, snapshot dropped"
  | .disconnected => "sink disconnected"

/-- a sink in one of its states: `take` says how it goes on and whether it refuses -/
structure Sink (S σ : Type) where
  name : String
  state : σ
  take : σ → S → σ × Option SinkError

namespace Sink

variable {S σ : Type}

/-- offer a snapshot to a sink -/
def offer (k : Sink S σ) (s : S) : Sink S σ × Option SinkError :=
  let (state, refusal) := k.take k.state s
  ({ k with state }, refusal)

/-- offer snapshots in order; the answers are listed in order -/
def offerAll (k : Sink S σ) (ss : List S) : Sink S σ × List (Option SinkError) :=
  ss.foldl (fun acc s =>
    let (k', r) := acc.1.offer s
    (k', acc.2 ++ [r])) (k, [])

/-- a sink that keeps the last snapshot -/
def keeping (name : String) : Sink S (Option S) := ⟨name, none, fun _ s => (some s, none)⟩

/-- a sink that takes nothing -/
def refusing (name : String) (e : SinkError) (state : σ) : Sink S σ := ⟨name, state, fun t _ => (t, some e)⟩

/-- the sink with its states among others -/
def embed {τ : Type} (put : σ → τ) (get : τ → Option σ) (k : Sink S σ) : Sink S τ where
  name := k.name
  state := put k.state
  take t s :=
    match get t with
    | some u =>
      let (u', r) := k.take u s
      (put u', r)
    | none => (t, some .disconnected)

end Sink

abbrev OutputGroup (S σ : Type) := List (Sink S σ)

namespace OutputGroup

variable {S σ : Type}

/-- offer a snapshot to one sink after another; the number says how many refused it -/
def dispatch (g : OutputGroup S σ) (s : S) : OutputGroup S σ × Nat :=
  g.foldl (fun acc k =>
    let (k', refusal) := k.offer s
    (acc.1 ++ [k'], if refusal.isSome then acc.2 + 1 else acc.2)) ([], 0)

/-- offer snapshots in order; the refusals of each are listed in order -/
def dispatchAll (g : OutputGroup S σ) (ss : List S) : OutputGroup S σ × List Nat :=
  ss.foldl (fun acc s =>
    let (g', n) := OutputGroup.dispatch acc.1 s
    (g', acc.2 ++ [n])) (g, [])

end OutputGroup

/-- the last snapshot as JSON, and `null` before there is one -/
def lastJson (last : Option (Snapshot Binary64)) : String :=
  match last with
  | some s => s.json
  | none => "null"

end MetricSurvey
