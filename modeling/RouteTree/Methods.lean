/-!
# Request methods

A branch key, a view and the settings each name a list of method tokens. The list keeps order and
repetitions, which show in labels; `sameSet` compares two lists as sets, by bringing both to
their sorted form without repetitions (`canonical`).
-/

namespace RouteTree

/-- A list of request-method tokens. Tokens are arbitrary strings. -/
structure Methods where
  tokens : List String
deriving DecidableEq, Inhabited, Repr

namespace Methods

def empty : Methods := ⟨[]⟩

def get : Methods := ⟨["GET"]⟩

/-- The methods that a view without a method list of its own answers to, unless the settings say
otherwise. -/
def standard : Methods := ⟨["GET", "POST", "PUT", "DELETE", "HEAD"]⟩

def isEmpty (m : Methods) : Bool := m.tokens.isEmpty

def contains (m : Methods) (token : String) : Bool := m.tokens.contains token

/-- The tokens of `a`, then those of `b`. -/
def append (a b : Methods) : Methods := ⟨a.tokens ++ b.tokens⟩

instance : Append Methods := ⟨append⟩

/-- The tokens of all the lists, in order. -/
def sum (ms : List Methods) : Methods := ms.foldl append empty

/-- The tokens in sorted order, each once. -/
def canonical (m : Methods) : List String :=
  (m.tokens.mergeSort fun a b => decide (a ≤ b)).eraseReps

/-- Do two lists name the same methods, in whatever order and however often? -/
def sameSet (a b : Methods) : Bool := a.canonical == b.canonical

/-- The tokens as one line of text. -/
def label (m : Methods) : String := ", ".intercalate m.tokens

/-- The label in parentheses. -/
def parenthesized (m : Methods) : String := "(" ++ m.label ++ ")"

@[simp] theorem tokens_append (a b : Methods) : (a ++ b).tokens = a.tokens ++ b.tokens := rfl

theorem tokens_foldl_append (a : Methods) (ms : List Methods) :
    (ms.foldl append a).tokens = a.tokens ++ ms.flatMap tokens := by
  induction ms generalizing a with
  | nil => simp
  | cons m ms ih => simp [ih, append]

@[simp] theorem tokens_sum (ms : List Methods) : (sum ms).tokens = ms.flatMap tokens := by
  simp [sum, tokens_foldl_append, empty]

end Methods

end RouteTree
