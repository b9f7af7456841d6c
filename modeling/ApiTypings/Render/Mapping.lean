import ApiTypings.Builtin
import ApiTypings.Config.Style
import ApiTypings.Graph.Node
import ApiTypings.Naming
import ApiTypings.TypeScript.Type

/-!
# Mapping references to type expressions

A reference is mapped for the node that contains it. A discovered type is written under its
declared name, a type of the platform's library in the form its shape gives, and a generic
parameter under the name the node has for it. What has no form in TypeScript is an error: a
delegate, an unlisted library type, a parameter out of range.
-/

namespace ApiTypings

/-- Why a part of a type cannot be written. -/
inductive Unmappable.Reason where
  | parameterOutOfRange (position : Nat) (id : Identity)
  | delegate (id : Identity)
  | noMapping (reference : Reference)
  | missingArgument (reference : Reference) (position : Nat)
  /-- A segment of a route that no parameter of the action fills. -/
  | unboundSegment (placeholder : String)
  deriving Repr

/-- A part of a type that cannot be written, and the member it belongs to. -/
structure Unmappable where
  declaring : Identity
  member : Member
  reason : Unmappable.Reason
  deriving Repr

namespace Unmappable

/-- The wording of a reason. -/
def Reason.message : Reason → String
  | .parameterOutOfRange position id =>
    "generic parameter !" ++ toString position ++ " is out of range for `" ++ id.display ++ "`"
  | .delegate id => "delegate `" ++ id.display ++ "` has no TypeScript representation"
  | .noMapping reference => "`" ++ reference.display ++ "` has no TypeScript mapping"
  | .missingArgument reference position =>
    "`" ++ reference.display ++ "` is missing generic argument " ++ toString position
  | .unboundSegment placeholder =>
    "route segment `\x7b" ++ placeholder ++ "\x7d` has no matching parameter"

/-- The wording of the whole failure. -/
def message (u : Unmappable) : String :=
  "cannot map `" ++ u.declaring.display ++ "." ++ u.member.label ++ "` to TypeScript: " ++
    u.reason.message

end Unmappable

namespace Render

open TypeScript (TypeExpr)

/-- What all writers of a run share. -/
structure Context where
  moduleStyle : ModuleStyle
  /-- Whether a nullable type is written as an alternative with `null`. -/
  strictNull : Bool
  graph : Graph

namespace Context

/-- The nullable form of a mapped type; a type that allows `null` already stays as it is. -/
def nullable (ctx : Context) (inner : TypeExpr) : TypeExpr :=
  if ctx.strictNull && !inner.allowsNull then inner.orNull else inner

/-- The form of a library type, given how to map the argument at a position. -/
def builtin (ctx : Context) (shape : BuiltinShape) (hasArguments : Bool)
    (argument : Nat → Except Unmappable TypeExpr) : Except Unmappable TypeExpr :=
  match shape with
  | .number => .ok (.primitive .number)
  | .string => .ok (.primitive .string)
  | .boolean => .ok (.primitive .boolean)
  | .date => .ok (.ref "Date")
  | .unknown => .ok (.primitive .unknown)
  | .void => .ok (.primitive .void)
  | .collection => (argument 0).map .array
  | .dictionary => (argument 1).map .stringRecord
  | .nullable => (argument 0).map ctx.nullable
  | .task => if hasArguments then argument 0 else .ok (.primitive .void)

mutual

/-- Maps a reference that stands in `member` of `node`. -/
def map (ctx : Context) (node : Node) (member : Member) :
    Reference → Except Unmappable TypeExpr
  | .param position =>
    match node.genericParameters[position]? with
    | some name => .ok (.ref name)
    | none => .error ⟨node.identity, member, .parameterOutOfRange position node.identity⟩
  | .array element => (map ctx node member element).map .array
  | .nullable inner => (map ctx node member inner).map ctx.nullable
  | .named id args =>
    match ctx.graph.node? id with
    | some target =>
      if target.kind = .delegate then .error ⟨node.identity, member, .delegate id⟩
      else (mapAll ctx node member args).map (.ofName id.declaredName)
    | none =>
      match id.builtinShape? with
      | none => .error ⟨node.identity, member, .noMapping (.named id args)⟩
      | some shape =>
        ctx.builtin shape (!args.isEmpty) fun position =>
          (mapAt ctx node member args position).getD
            (.error ⟨node.identity, member, .missingArgument (.named id args) position⟩)

/-- Maps several references; the first that fails decides. -/
def mapAll (ctx : Context) (node : Node) (member : Member) :
    List Reference → Except Unmappable (List TypeExpr)
  | [] => .ok []
  | r :: rs =>
    match map ctx node member r with
    | .error e => .error e
    | .ok t => (mapAll ctx node member rs).map (t :: ·)

/-- Maps the reference at a position of a list, if there is one. -/
def mapAt (ctx : Context) (node : Node) (member : Member) :
    List Reference → Nat → Option (Except Unmappable TypeExpr)
  | [], _ => none
  | r :: _, 0 => some (map ctx node member r)
  | _ :: rs, position + 1 => mapAt ctx node member rs position

end

/-- Arguments are mapped one after the other. -/
theorem mapAll_eq (ctx : Context) (node : Node) (member : Member) (rs : List Reference) :
    mapAll ctx node member rs = rs.mapM (ctx.map node member) := by
  induction rs with
  | nil => rfl
  | cons r rs ih =>
    rw [mapAll, List.mapM_cons, ih]
    cases ctx.map node member r with
    | error e => rfl
    | ok t => cases rs.mapM (ctx.map node member) <;> rfl

/-- At a position the argument there is mapped, if there is one. -/
theorem mapAt_eq (ctx : Context) (node : Node) (member : Member) (rs : List Reference) (i : Nat) :
    mapAt ctx node member rs i = rs[i]?.map (ctx.map node member) := by
  induction rs generalizing i with
  | nil => rfl
  | cons r rs ih =>
    cases i with
    | zero => rfl
    | succ i => simp [mapAt, ih]

end Context

end Render

end ApiTypings
