import Cartridge.Failure

/-!
# Computations that take notes

`Noted α` is a value together with the diagnostics and log records made on the way to it, in order.
An `Outcome α` may also stop at a failure, and keeps the notes that were made before it.
-/

namespace Cartridge

inductive LogLevel where
  | debug
  | info
  | warn
deriving DecidableEq, Repr

def LogLevel.label : LogLevel → String
  | debug => "DEBUG"
  | info => "INFO"
  | warn => "WARN"

structure LogRecord where
  level : LogLevel
  message : String
deriving DecidableEq, Repr

def LogRecord.text (r : LogRecord) : String := s!"{r.level.label} {r.message}"

structure Noted (α : Type) where
  value : α
  report : Report
  log : List LogRecord

namespace Noted

variable {α β : Type}

instance : Monad Noted where
  pure a := ⟨a, [], []⟩
  bind x f :=
    let y := f x.value
    ⟨y.value, x.report ++ y.report, x.log ++ y.log⟩

@[simp] theorem value_pure (a : α) : (pure a : Noted α).value = a := rfl

@[simp] theorem report_pure (a : α) : (pure a : Noted α).report = [] := rfl

@[simp] theorem value_bind (x : Noted α) (f : α → Noted β) :
    (x >>= f).value = (f x.value).value := rfl

@[simp] theorem report_bind (x : Noted α) (f : α → Noted β) :
    (x >>= f).report = x.report ++ (f x.value).report := rfl

/-- Adds diagnostics. -/
def tell (report : Report) : Noted Unit := ⟨(), report, []⟩

def logged (level : LogLevel) (message : String) : Noted Unit := ⟨(), [], [⟨level, message⟩]⟩

def debug (message : String) : Noted Unit := logged .debug message

def info (message : String) : Noted Unit := logged .info message

end Noted

abbrev Outcome := ExceptT Failure Noted

/-- The value or failure that an outcome ends in. -/
def Outcome.result {α : Type} (x : Outcome α) : Except Failure α := (ExceptT.run x).value

/-- The diagnostics that an outcome leaves, also before a failure. -/
def Outcome.report {α : Type} (x : Outcome α) : Report := (ExceptT.run x).report

def Outcome.log {α : Type} (x : Outcome α) : List LogRecord := (ExceptT.run x).log

end Cartridge
