import RouteTree.Methods
import Std.Data.ExtTreeMap

/-!
# Registration options of a view

`ViewOptions` says under which conditions a view answers. An option that is `none` is unspecified,
which differs from one specified as empty; `update` lays one set of options over another and lets
only the specified ones through.
-/

namespace RouteTree

/-- The part of an incoming request that a guard looks at. -/
structure Request where
  route : String
  method : String
deriving DecidableEq, Repr

/-- A named test on requests. -/
structure Guard where
  name : String
  accepts : Request → Bool

namespace Guard

/-- A guard that lets every request pass. -/
def always (name : String) : Guard := ⟨name, fun _ => true⟩

/-- Guards are compared by name: their tests cannot be. -/
instance : BEq Guard := ⟨fun a b => a.name == b.name⟩

theorem beq_iff (a b : Guard) : (a == b) = true ↔ a.name = b.name := by
  simp [BEq.beq]

end Guard

/-- A map from names to texts, in the order of the names. -/
abbrev TextMap := Std.ExtTreeMap String String

/-- The arguments a view is called with. -/
abbrev CallArgs := TextMap

/-- Under which conditions a view answers, and how its result is rendered. -/
structure ViewOptions where
  methods : Option Methods := none
  guards : Option (List Guard) := none
  accept : Option String := none
  renderer : Option String := none
  extra : TextMap := ∅
deriving BEq

namespace ViewOptions

instance : Inhabited ViewOptions := ⟨{}⟩

/-- Is nothing specified? -/
def isEmpty (o : ViewOptions) : Bool := o == {}

/-- `base` with everything that `overlay` specifies; extra options are replaced key by key. -/
def update (base overlay : ViewOptions) : ViewOptions where
  methods := overlay.methods.or base.methods
  guards := overlay.guards.or base.guards
  accept := overlay.accept.or base.accept
  renderer := overlay.renderer.or base.renderer
  extra := base.extra ∪ overlay.extra

/-- The methods of a view: those it specifies, or else the standard ones. -/
def methodsOr (o : ViewOptions) (standard : Methods) : Methods := o.methods.getD standard

/-- Do two views answer the same requests as far as their options show? The renderer plays no part,
and method lists are compared as sets. -/
def collides (a b : ViewOptions) : Bool :=
  (match a.methods, b.methods with
    | some x, some y => x.sameSet y
    | none, none => true
    | _, _ => false) &&
  a.accept == b.accept && a.guards == b.guards && a.extra == b.extra

/-- The options that `collides` compares, as one line of text. -/
def conditions (o : ViewOptions) : String :=
  let parts :=
    (o.methods.map fun m => "request_method=" ++ m.parenthesized).toList ++
    (o.accept.map fun a => "accept=" ++ a).toList ++
    (o.guards.map fun gs =>
      "custom_predicates=(" ++ ", ".intercalate (gs.map Guard.name) ++ ")").toList ++
    o.extra.toList.map fun (key, value) => key ++ "=" ++ value
  "\x7b" ++ ", ".intercalate parts ++ "\x7d"

end ViewOptions

end RouteTree
