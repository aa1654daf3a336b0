/-
A store in memory that others write to between any two calls.

Who uses it gets the answers of a store in memory. But in front of each
call the others have their turn, with writes of their own of which some
may be refused (`Shared.turn`). Which writes these are is given in
advance, call by call, and nothing else is said about them, so whatever
can happen between the calls is one of the plans.

Every write of the user's that lands is noted with what it found under
its key, and with what the others had written since the last listing
(`Landing`). A call is thus a turn of the others and, unless it is
refused, a write to the store as it is then (`after_cases`).
-/
import ControlLoop.Proofs.Store.Since

namespace ControlLoop

variable {β : Type}

-- ========================================================== the store

/-- A write that landed. -/
structure Landing (β : Type) where
  write : Write β
  /-- What was stored under its key at that moment. -/
  found : Option (Object β)
  /-- What others had written since the last listing. -/
  meanwhile : List (Write β)
  deriving DecidableEq

/-- A memory, and what others are going to write to it. -/
structure Shared (β : Type) where
  memory : Memory β
  /-- In front of each of the calls to come. -/
  others : List (List (Write β))
  /-- What they have written since the last listing. -/
  meanwhile : List (Write β)
  landings : List (Landing β)

namespace Shared

def start (m : Memory β) (others : List (List (Write β))) : Shared β := ⟨m, others, [], []⟩

/-- The others write what they are going to write in front of the next call. -/
def turn (s : Shared β) : Shared β :=
  { s with
    memory := (s.others.headD []).foldl Memory.after s.memory
    others := s.others.tail
    meanwhile := s.meanwhile ++ s.others.headD [] }

/-- Answer a write as the memory does, and note it if it landed. -/
def answer {α : Type} (s : Shared β) (w : Write β) :
    Except Error α × Memory β → Except Error α × Shared β
  | (.ok a, m) =>
    (.ok a, { s with
      memory := m, landings := s.landings ++ [⟨w, s.memory.object? w.key, s.meanwhile⟩] })
  | (.error e, m) => (.error e, { s with memory := m })

def store : Store (Shared β) β where
  list space selector s := (s.turn.memory.list space selector, { s.turn with meanwhile := [] })
  get k s := (.ok (s.turn.memory.object? k), s.turn)
  create o s := s.turn.answer (.create o) (s.turn.memory.create o)
  replace o s := s.turn.answer (.replace o) (s.turn.memory.replace o)
  delete k p s := s.turn.answer (.delete k p) (s.turn.memory.delete k)

end Shared

-- ============================================================ one call

namespace Memory

/-- What a memory asks of a write, beside not being made to refuse it. -/
def Admits (m : Memory β) : Write β → Prop
  | .create o => m.object? o.key = none
  | .replace o => ∃ holder, m.object? o.key = some holder
      ∧ o.metadata.resourceVersion = holder.metadata.resourceVersion
  | .delete _ _ => True

end Memory

namespace Shared

def landed (s : Shared β) (w : Write β) : Shared β :=
  { s with
    memory := s.memory.after w
    landings := s.landings ++ [⟨w, s.memory.object? w.key, s.meanwhile⟩] }

/-- After a turn of the others, a write is refused, or it is admitted and lands. -/
theorem after_cases (s : Shared β) (w : Write β) :
    store.after s w = s.turn ∨ s.turn.memory.Admits w ∧ store.after s w = s.turn.landed w := by
  cases w with
  | create o =>
      show (s.turn.answer _ (s.turn.memory.create o)).2 = _ ∨ _
      rcases s.turn.memory.create_cases o with ⟨e, -, h⟩ | ⟨-, -, h⟩ | ⟨-, hfree, h⟩
      · rw [h]
        exact Or.inl rfl
      · rw [h]
        exact Or.inl rfl
      · refine Or.inr ⟨hfree, ?_⟩
        show (s.turn.answer _ (s.turn.memory.create o)).2 = _
        rw [landed, Memory.after, h]
        rfl
  | replace o =>
      show (s.turn.answer _ (s.turn.memory.replace o)).2 = _ ∨ _
      rcases s.turn.memory.replace_cases o with
        ⟨e, -, h⟩ | ⟨-, -, h⟩ | ⟨-, -, h⟩ | ⟨-, hholder, h⟩
      · rw [h]
        exact Or.inl rfl
      · rw [h]
        exact Or.inl rfl
      · rw [h]
        exact Or.inl rfl
      · refine Or.inr ⟨hholder, ?_⟩
        show (s.turn.answer _ (s.turn.memory.replace o)).2 = _
        rw [landed, Memory.after, h]
        rfl
  | delete k p =>
      show (s.turn.answer _ (s.turn.memory.delete k)).2 = _ ∨ _
      rcases s.turn.memory.delete_cases k with ⟨e, -, h⟩ | ⟨-, -, h⟩ | ⟨-, -, h⟩
      · rw [h]
        exact Or.inl rfl
      · rw [h]
        exact Or.inl rfl
      · refine Or.inr ⟨trivial, ?_⟩
        show (s.turn.answer _ (s.turn.memory.delete k)).2 = _
        rw [landed, Memory.after, h]
        rfl

end Shared

end ControlLoop
