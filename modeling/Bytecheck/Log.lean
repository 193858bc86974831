/-!
# Log Records

A record is a value. A traced computation returns the records it made beside its outcome, so a
run can be replayed and compared; forgetting the records is a homomorphism onto `Except`.
-/

namespace Bytecheck

namespace Log

inductive Level where
  | error | warn | info | debug | trace
deriving DecidableEq, Repr

/-- Position of a level, the most severe first. -/
def Level.rank : Level → Nat
  | .error => 0
  | .warn => 1
  | .info => 2
  | .debug => 3
  | .trace => 4

def Level.name : Level → String
  | .error => "ERROR"
  | .warn => "WARN"
  | .info => "INFO"
  | .debug => "DEBUG"
  | .trace => "TRACE"

structure Entry where
  level : Level
  text : String
deriving DecidableEq, Repr

/-- The records at a level or above it in severity. -/
def upTo (level : Level) (entries : List Entry) : List Entry :=
  entries.filter fun e => e.level.rank ≤ level.rank

end Log

/-- A computation that may fail and keeps the records made up to that point. -/
structure Traced (ε α : Type) where
  log : List Log.Entry
  outcome : Except ε α

namespace Traced

variable {ε α β : Type}

def pure (a : α) : Traced ε α := ⟨[], .ok a⟩

def bind (x : Traced ε α) (f : α → Traced ε β) : Traced ε β :=
  match x.outcome with
  | .error e => ⟨x.log, .error e⟩
  | .ok a => ⟨x.log ++ (f a).log, (f a).outcome⟩

instance : Monad (Traced ε) where
  pure := Traced.pure
  bind := Traced.bind

def note (entries : List Log.Entry) : Traced ε Unit := ⟨entries, .ok ()⟩

def fail (e : ε) : Traced ε α := ⟨[], .error e⟩

/-- A computation that makes no records. -/
def lift (x : Except ε α) : Traced ε α := ⟨[], x⟩

@[simp] theorem outcome_pure (a : α) : (Pure.pure a : Traced ε α).outcome = .ok a := rfl

@[simp] theorem outcome_bind (x : Traced ε α) (f : α → Traced ε β) :
    (x >>= f).outcome = x.outcome >>= fun a => (f a).outcome := by
  change (Traced.bind x f).outcome = _
  unfold Traced.bind
  cases x.outcome <;> rfl

@[simp] theorem outcome_note (entries : List Log.Entry) :
    (note entries : Traced ε Unit).outcome = .ok () := rfl

@[simp] theorem outcome_fail (e : ε) : (fail e : Traced ε α).outcome = .error e := rfl

@[simp] theorem outcome_lift (x : Except ε α) : (lift x).outcome = x := rfl

end Traced

end Bytecheck
