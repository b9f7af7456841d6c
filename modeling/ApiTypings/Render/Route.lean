import ApiTypings.Definition
import ApiTypings.Text.Cut
import ApiTypings.TypeScript.Expression

/-!
# Routes of actions

A route is a path with segments in braces, each filled from the argument of that name. Reading a
path loses nothing: `path_ofPath` writes it back. In a segment, everything from the first colon
on, leading stars and trailing question marks are no part of the name.
-/

namespace ApiTypings.Render

open TypeScript (Expr TemplatePart)

/-- A path taken apart: the text before each segment and what stands in its braces, and the text
after the last segment. -/
structure Route where
  segments : List (List Char × List Char)
  tail : List Char
  deriving DecidableEq, Repr

namespace Route

/-- Reads a path from the left; a brace that is never closed is plain text. -/
def ofPath (path : List Char) : Route :=
  match ho : Text.cutFirst '\x7b' path with
  | none => ⟨[], path⟩
  | some (before, inside) =>
    match hc : Text.cutFirst '\x7d' inside with
    | none => ⟨[], path⟩
    | some (placeholder, rest) =>
      have : rest.length < path.length :=
        Nat.lt_trans (Text.length_lt_of_cutFirst hc) (Text.length_lt_of_cutFirst ho)
      let after := ofPath rest
      ⟨(before, placeholder) :: after.segments, after.tail⟩
termination_by path.length

/-- Writes segments back in their braces. -/
def write (segments : List (List Char × List Char)) (tail : List Char) : List Char :=
  match segments with
  | [] => tail
  | (before, placeholder) :: rest => before ++ '\x7b' :: placeholder ++ '\x7d' :: write rest tail

/-- The path that a route was read from. -/
def path (r : Route) : List Char := write r.segments r.tail

/-- Reading a path loses none of it. -/
theorem path_ofPath (cs : List Char) : (ofPath cs).path = cs := by
  fun_induction ofPath cs with
  | case1 => rfl
  | case2 => rfl
  | case3 cs before inside ho placeholder rest hc _ after ih =>
    rw [Text.cutFirst_append ho, Text.cutFirst_append hc]
    simp only [path, write] at ih ⊢
    rw [ih]
    simp

/-- The name of a segment. -/
def name (placeholder : List Char) : List Char :=
  let named := match Text.cutFirst ':' placeholder with
    | some (before, _) => before
    | none => placeholder
  let unstarred := named.dropWhile (· == '*')
  (unstarred.reverse.dropWhile (· == '?')).reverse

end Route

/-- A parameter of an action: its name in requests, and the identifier it is bound to. -/
structure Argument where
  key : String
  ident : String
  deriving DecidableEq, Repr

/-- The position of the first argument that fills a segment; the case of letters is ignored. -/
def Argument.position? (arguments : List Argument) (placeholder : List Char) : Option Nat :=
  arguments.findIdx? fun a => Text.sameIgnoringCase a.key (String.ofList (Route.name placeholder))

namespace Route

/-- The positions of the arguments that fill the segments, or the first segment that none
fills. -/
def bind (arguments : List Argument) : List (List Char × List Char) → Except (List Char) (List Nat)
  | [] => .ok []
  | (_, placeholder) :: rest =>
    match Argument.position? arguments placeholder with
    | none => .error placeholder
    | some position => (bind arguments rest).map (position :: ·)

/-- The value of an argument, encoded for a URL. -/
def hole (a : Argument) : TemplatePart :=
  .hole (.apply "encodeURIComponent" [.apply "String" [.ident a.ident]])

/-- A text as a template part, unless it is empty. -/
def textPart (text : List Char) : List TemplatePart :=
  if text.isEmpty then [] else [.text (String.ofList text)]

/-- The parts of the template for segments and the arguments that fill them. -/
def parts (arguments : List Argument) (tail : List Char) :
    List (List Char × List Char) → List Nat → List TemplatePart
  | (before, _) :: segments, position :: bound =>
    textPart before ++ (arguments[position]?.map hole).toList ++
      parts arguments tail segments bound
  | _, _ => textPart tail

/-- The URL of a path and the positions of the arguments in it, or the first segment that no
argument fills. -/
def url (path : String) (arguments : List Argument) : Except (List Char) (Expr × List Nat) :=
  let route := ofPath path.toList
  match bind arguments route.segments with
  | .error placeholder => .error placeholder
  | .ok [] => .ok (.string path, [])
  | .ok bound => .ok (.template (parts arguments route.tail route.segments bound), bound)

end Route

/-- `name` without the ending `ending`, if it has it. -/
def withoutEnding (ending name : List Char) : List Char :=
  if ending.isSuffixOf name then name.take (name.length - ending.length) else name

/-- The path of an action: its own route, or the controller's name, without the ending
`Controller`, and the action's. -/
def actionPath (controller : String) (action : ActionDef) : String :=
  match action.route with
  | some route => if Text.startsWith ['/'] route.toList then route else "/" ++ route
  | none =>
    "/" ++ String.ofList (withoutEnding "Controller".toList controller.toList) ++ "/" ++ action.name

end ApiTypings.Render
