import EngineHost.Value.Basic

/-!
Programs of the scripted engine. It knows a program by its source text; what the program does is an
expression over wire values, closures and calls.
-/
namespace EngineHost.Scripted

mutual

inductive Expr where
  | const (value : Value)
  | var (name : Value)
  | fail (message : String)
  | list (items : List Expr)
  | record (fields : List (Value × Expr))
  /-- A closure over the present variables. -/
  | fn (params : List Value) (body : Expr)
  /-- Ends the evaluation with this answer. -/
  | envelope (answer : Value)
  | call (function : Value) (args : List CallArg)

/-- A closure takes its arguments by position, a host function by name. -/
inductive CallArg where
  | positional (value : Expr)
  | named (symbol : Value) (value : Expr)

end

structure Program where
  expr? : Option Expr
  /-- The answer to questions about types. -/
  types? : Option Value

abbrev ProgramTable := List (Value × Program)

end EngineHost.Scripted
