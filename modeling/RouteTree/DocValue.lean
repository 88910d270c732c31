/-!
# Documentation values

What a handler declares about its inputs and outputs: names of types, texts, flags, lists and maps
of such values, and values that have no textual form at all (only the name of their type is known).
Equality is decided by structural recursion, because substitutes are looked up by the whole value.
-/

namespace RouteTree

inductive DocValue where
  /-- The name of a type. -/
  | type (name : String)
  | text (content : String)
  | flag (on : Bool)
  | list (items : List DocValue)
  /-- Named values in the order of their declaration; a name may occur twice. -/
  | map (entries : List (String × DocValue))
  /-- A list whose items all look like `inner`. -/
  | listOf (inner : DocValue)
  /-- A value without textual form. -/
  | value (typeName : String)
deriving Inhabited, Repr

namespace DocValue

mutual

def decEq : (v w : DocValue) → Decidable (v = w)
  | .type a, .type b => decidable_of_iff (a = b) (by simp)
  | .text a, .text b => decidable_of_iff (a = b) (by simp)
  | .flag a, .flag b => decidable_of_iff (a = b) (by simp)
  | .list xs, .list ys => have := decEqItems xs ys; decidable_of_iff (xs = ys) (by simp)
  | .map xs, .map ys => have := decEqEntries xs ys; decidable_of_iff (xs = ys) (by simp)
  | .listOf x, .listOf y => have := decEq x y; decidable_of_iff (x = y) (by simp)
  | .value a, .value b => decidable_of_iff (a = b) (by simp)
  | .type _, .text _ | .type _, .flag _ | .type _, .list _ | .type _, .map _
  | .type _, .listOf _ | .type _, .value _ | .text _, .type _ | .text _, .flag _
  | .text _, .list _ | .text _, .map _ | .text _, .listOf _ | .text _, .value _
  | .flag _, .type _ | .flag _, .text _ | .flag _, .list _ | .flag _, .map _
  | .flag _, .listOf _ | .flag _, .value _ | .list _, .type _ | .list _, .text _
  | .list _, .flag _ | .list _, .map _ | .list _, .listOf _ | .list _, .value _
  | .map _, .type _ | .map _, .text _ | .map _, .flag _ | .map _, .list _
  | .map _, .listOf _ | .map _, .value _ | .listOf _, .type _ | .listOf _, .text _
  | .listOf _, .flag _ | .listOf _, .list _ | .listOf _, .map _ | .listOf _, .value _
  | .value _, .type _ | .value _, .text _ | .value _, .flag _ | .value _, .list _
  | .value _, .map _ | .value _, .listOf _ => isFalse (by simp)

def decEqItems : (xs ys : List DocValue) → Decidable (xs = ys)
  | [], [] => isTrue rfl
  | x :: xs, y :: ys =>
    have := decEq x y
    have := decEqItems xs ys
    decidable_of_iff (x = y ∧ xs = ys) (by simp)
  | [], _ :: _ | _ :: _, [] => isFalse (by simp)

def decEqEntries : (xs ys : List (String × DocValue)) → Decidable (xs = ys)
  | [], [] => isTrue rfl
  | (k, x) :: xs, (l, y) :: ys =>
    have := decEq x y
    have := decEqEntries xs ys
    decidable_of_iff (k = l ∧ x = y ∧ xs = ys) (by simp [and_assoc])
  | [], _ :: _ | _ :: _, [] => isFalse (by simp)

end

instance : DecidableEq DocValue := decEq

mutual

/-- The number of nodes. -/
def size : DocValue → Nat
  | .list items => 1 + sizeItems items
  | .map entries => 1 + sizeEntries entries
  | .listOf inner => 1 + inner.size
  | .type _ | .text _ | .flag _ | .value _ => 1

def sizeItems : List DocValue → Nat
  | [] => 0
  | v :: items => v.size + sizeItems items

def sizeEntries : List (String × DocValue) → Nat
  | [] => 0
  | (_, v) :: entries => v.size + sizeEntries entries

end

/-- The values right below a value. -/
def parts : DocValue → List DocValue
  | .list items => items
  | .map entries => entries.map (·.2)
  | .listOf inner => [inner]
  | .type _ | .text _ | .flag _ | .value _ => []

/-- Does the value stand between brackets, each on a line of its own? -/
def isBlock : DocValue → Bool
  | .list _ | .map _ => true
  | .type _ | .text _ | .flag _ | .listOf _ | .value _ => false

/-- Is there nothing to document? An empty text, list or map, or a flag that is off. -/
def isEmpty : DocValue → Bool
  | .text content => content.isEmpty
  | .flag on => !on
  | .list items => items.isEmpty
  | .map entries => entries.isEmpty
  | .type _ | .listOf _ | .value _ => false

/-- A map without the entries named in `keys`; every other value as it is. -/
def dropKeys (v : DocValue) (keys : List String) : DocValue :=
  match v with
  | .map entries => .map (entries.filter fun (key, _) => !keys.contains key)
  | other => other

end DocValue

/-- What a handler declares about its inputs and outputs. -/
structure Declarations where
  required : Option DocValue := none
  optional : Option DocValue := none
  unlimited : Option DocValue := none
  returns : Option DocValue := none
deriving DecidableEq, Inhabited, Repr

end RouteTree
