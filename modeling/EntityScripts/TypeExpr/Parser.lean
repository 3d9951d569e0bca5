import EntityScripts.TypeExpr.Basic
import EntityScripts.TypeExpr.Token

/-!
Reading a type expression:

    expr    := name generic? "[]"*
    generic := "<" expr (("::" | ",") expr)* ">"

The argument lists still open form a stack. `Optional` takes one argument and every container as
many as its kind says; no other name takes any.
-/
namespace EntityScripts

namespace TypeExpr

inductive Awaited where
  | typeName
  | closeArgs
deriving DecidableEq

inductive ParseError where
  | arity (head : String) (expected found : Nat)
  | empty
  | trailing (rest : String)
  | unexpected (found : Char) (offset : Nat) (awaited : Awaited)
  | unexpectedEnd (awaited : Awaited)
  | unknownGeneric (head : String)
deriving DecidableEq

def Awaited.describe : Awaited → String
  | typeName => "a type name"
  | closeArgs => "'>'"

def ParseError.message : ParseError → String
  | arity head expected found =>
    "'" ++ head ++ "' expects " ++ Nat.repr expected ++ " type argument(s), found " ++
      Nat.repr found
  | empty => "type expression is empty"
  | trailing rest => "trailing input '" ++ rest ++ "'"
  | unexpected found offset awaited =>
    "unexpected character '" ++ found.toString ++ "' at offset " ++ Nat.repr offset ++
      ", expected " ++ awaited.describe
  | unexpectedEnd awaited => "unexpected end of type expression, expected " ++ awaited.describe
  | unknownGeneric head => "unknown generic type '" ++ head ++ "'"

def ofGeneric (head : String) (args : List TypeExpr) : Except ParseError TypeExpr :=
  if head = "Optional" then
    match args with
    | [e] => .ok (.optional e)
    | _ => .error (.arity head 1 args.length)
  else match ContainerKind.ofHead? head with
    | none => .error (.unknownGeneric head)
    | some k =>
      if args.length = k.arity then .ok (.container k args)
      else .error (.arity head k.arity args.length)

/-- An argument list that is still open: its head and the complete arguments, the latest first. -/
structure OpenArgs where
  head : String
  args : List TypeExpr

inductive Point where
  | wantName
  /-- Behind a name, which may still turn out to be a generic head. -/
  | afterName (name : String)
  | afterExpr (e : TypeExpr)

/-- What does not fit is an error if an argument list is open; otherwise the expression ends. -/
def misfit (l : Lexeme) : List OpenArgs → ParseError
  | [] => .trailing (String.ofList l.rest)
  | _ :: _ => .unexpected (l.rest.headD ' ') l.offset .closeArgs

def Point.expr? : Point → Option TypeExpr
  | wantName => none
  | afterName n => some (.named n)
  | afterExpr e => some e

def continueWith (e : TypeExpr) (opened : List OpenArgs) (l : Lexeme) :
    Except ParseError (Point × List OpenArgs) :=
  match l.token, opened with
  | .brackets, _ => .ok (.afterExpr (.array e), opened)
  | .comma, o :: os | .colons, o :: os => .ok (.wantName, ⟨o.head, e :: o.args⟩ :: os)
  | .closeArgs, o :: os => do
    let g ← ofGeneric o.head (e :: o.args).reverse
    pure (.afterExpr g, os)
  | _, _ => .error (misfit l opened)

def advance (p : Point) (opened : List OpenArgs) (l : Lexeme) :
    Except ParseError (Point × List OpenArgs) :=
  match p with
  | .wantName =>
    match l.token with
    | .name cs => .ok (.afterName (String.ofList cs), opened)
    | _ => .error (.unexpected (l.rest.headD ' ') l.offset .typeName)
  | .afterName n =>
    match l.token with
    | .openArgs => .ok (.wantName, ⟨n, []⟩ :: opened)
    | _ => continueWith (.named n) opened l
  | .afterExpr e => continueWith e opened l

def run (p : Point) (opened : List OpenArgs) : List Lexeme → Except ParseError TypeExpr
  | [] =>
    match p.expr?, opened with
    | none, _ => .error (.unexpectedEnd .typeName)
    | some _, _ :: _ => .error (.unexpectedEnd .closeArgs)
    | some e, [] => .ok e
  | l :: ls =>
    match advance p opened l with
    | .ok (p, opened) => run p opened ls
    | .error e => .error e

def parse (s : String) : Except ParseError TypeExpr :=
  match lexemes 0 s.toList with
  | [] => .error .empty
  | ls => run .wantName [] ls

end TypeExpr
end EntityScripts
