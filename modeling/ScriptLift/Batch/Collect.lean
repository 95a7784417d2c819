/-!
# Collecting in order

Results carry the number of their job and may be delivered in any order; they are handed on in the
order of their numbers, and no more of them after one could not be handled.

* `Collector`: the results that wait, and the number that is next.
* `Collector.deliver`: one delivery.
* `collect`: all deliveries.
-/

namespace ScriptLift.Batch

variable {ρ σ ε : Type}

/-- Where collecting stands. -/
structure Collector (ρ σ ε : Type) where
  pending : List (Nat × ρ)
  next : Nat
  state : σ
  /-- Why results are no longer handled. -/
  stopped : Option ε
  deriving Repr, Inhabited

namespace Collector

/-- Nothing was delivered yet. -/
def start (s : σ) : Collector ρ σ ε := ⟨[], 0, s, none⟩

/-- Handles the result that is next, unless handling was stopped. -/
def take (emit : ρ → σ → σ × Option ε) (c : Collector ρ σ ε) (r : ρ) : Collector ρ σ ε :=
  let rest := c.pending.filter (·.1 != c.next)
  match c.stopped with
  | some e => ⟨rest, c.next + 1, c.state, some e⟩
  | none =>
    let (s, e) := emit r c.state
    ⟨rest, c.next + 1, s, e⟩

/-- Handles results as long as the next one is there; each takes one of `fuel`. -/
def drain (emit : ρ → σ → σ × Option ε) : (fuel : Nat) → Collector ρ σ ε → Collector ρ σ ε
  | 0, c => c
  | fuel + 1, c =>
    match c.pending.lookup c.next with
    | some r => drain emit fuel (c.take emit r)
    | none => c

/-- Takes a delivery, then handles what can be handled: no more than is pending. -/
def deliver (emit : ρ → σ → σ × Option ε) (c : Collector ρ σ ε) (d : Nat × ρ) :
    Collector ρ σ ε :=
  let pending := d :: c.pending.filter (·.1 != d.1)
  drain emit pending.length { c with pending }

end Collector

/-- The state after all deliveries, and why handling was stopped. -/
def collect (emit : ρ → σ → σ × Option ε) (s : σ) (deliveries : List (Nat × ρ)) :
    σ × Option ε :=
  let c := deliveries.foldl (Collector.deliver emit) (.start s)
  (c.state, c.stopped)

end ScriptLift.Batch
