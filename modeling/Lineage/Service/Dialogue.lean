/-
Dialogues with a store.

A dialogue is what a service does with a store it knows nothing about: it asks for something and
goes on with the answer, notes an event, or is done. `run` holds it with a backend. Since a dialogue
is data, statements about it can range over every way in which a store may answer.
-/

import Lineage.Logging.Event
import Lineage.Store.Request

namespace Lineage

/-- A dialogue with a store that ends in a value of type `α`. -/
inductive Dialogue (α : Type) where
  | done (result : α)
  | ask (request : Request) (next : request.Answer → Dialogue α)
  | note (event : Event) (next : Dialogue α)

/-- What comes of a dialogue: its result, the state of the store after it, and the events on the
way. -/
structure Outcome (σ α : Type) where
  result : α
  state : σ
  events : List Event

namespace Dialogue

/-- A dialogue that goes on when another one is done. -/
def bind {α β : Type} : Dialogue α → (α → Dialogue β) → Dialogue β
  | .done result, f => f result
  | .ask request next, f => .ask request fun answer => (next answer).bind f
  | .note event next, f => .note event (next.bind f)

/-- Holds a dialogue with a backend. -/
def run {σ α : Type} (backend : Backend σ) (stamp : Stamp) : Dialogue α → σ → Outcome σ α
  | .done result, s => ⟨result, s, []⟩
  | .ask request next, s =>
    let (answer, s) := backend stamp request s
    (next answer).run backend stamp s
  | .note event next, s =>
    let outcome := next.run backend stamp s
    { outcome with events := event :: outcome.events }

/-- A way through a dialogue: the calls that it makes one after the other, each with the answer it
is given, and the result in which it ends. -/
inductive Path {α : Type} : Dialogue α → List ((r : Request) × r.Answer) → α → Prop where
  | done (result : α) : Path (.done result) [] result
  | ask {request : Request} {next : request.Answer → Dialogue α} (answer : request.Answer)
      {calls : List ((r : Request) × r.Answer)} {result : α} :
      Path (next answer) calls result → Path (.ask request next) (⟨request, answer⟩ :: calls) result
  | note {event : Event} {next : Dialogue α} {calls : List ((r : Request) × r.Answer)}
      {result : α} : Path next calls result → Path (.note event next) calls result

end Dialogue

end Lineage
