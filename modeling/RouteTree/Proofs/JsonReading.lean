import RouteTree.Text.Json
import Mathlib.Data.List.Forall2

/-!
# Reading JSON

A reader of texts and objects in JSON, in whatever layout and with any escapes. The characters are scanned for
tokens (`Scan.step`), and a machine with a stack of the objects that are not closed yet makes a value of the
tokens (`State.step`). Both go from left to right and never back, so that what they do on a text is what they do
on its parts one after the other: `Scans` holds of a text if between tokens it is always scanned to the same
ones, and a text that is put together from such texts is one of them.

A rendered value is scanned to the tokens that it consists of (`scans_renderAt`), and read from these as it was
(`foldlM_tokens`).
-/

namespace RouteTree.Text.Json

/-- What is left of JSON without its layout and its escapes. -/
inductive Token where
  | opening
  | closing
  | colon
  | comma
  | text (content : String)
deriving DecidableEq, Repr

/-! ### Scanning -/

/-- Where in a text the scanner is; `read` are the characters of a text in quotes so far. -/
inductive Place where
  | between
  | inside (read : List Char)
  /-- Behind a backslash. -/
  | escaped (read : List Char)
  /-- Ahead of a digit of a code, which `left` more follow. -/
  | code (read : List Char) (value left : Nat)
deriving DecidableEq, Repr

structure Scan where
  tokens : List Token
  place : Place
deriving DecidableEq, Repr

/-- What a character behind a backslash stands for. -/
def unescape? (c : Char) : Option Char :=
  match c with
  | '"' => some '"'
  | '\\' => some '\\'
  | '/' => some '/'
  | 'n' => some '\n'
  | 'r' => some '\r'
  | 't' => some '\t'
  | 'b' => some '\x08'
  | 'f' => some '\x0c'
  | _ => none

def hexDigit? (c : Char) : Option Nat :=
  if '0' ≤ c ∧ c ≤ '9' then some (c.toNat - '0'.toNat)
  else if 'a' ≤ c ∧ c ≤ 'f' then some (c.toNat - 'a'.toNat + 10)
  else if 'A' ≤ c ∧ c ≤ 'F' then some (c.toNat - 'A'.toNat + 10)
  else none

namespace Scan

def stepBetween (tokens : List Token) (c : Char) : Option Scan :=
  match c with
  | ' ' | '\n' | '\r' | '\t' => some ⟨tokens, .between⟩
  | '\x7b' => some ⟨tokens ++ [.opening], .between⟩
  | '\x7d' => some ⟨tokens ++ [.closing], .between⟩
  | ':' => some ⟨tokens ++ [.colon], .between⟩
  | ',' => some ⟨tokens ++ [.comma], .between⟩
  | '"' => some ⟨tokens, .inside []⟩
  | _ => none

/-- Control characters have to be escaped. -/
def stepInside (tokens : List Token) (read : List Char) (c : Char) : Option Scan :=
  if c = '"' then some ⟨tokens ++ [.text (String.ofList read)], .between⟩
  else if c = '\\' then some ⟨tokens, .escaped read⟩
  else if c.toNat < 0x20 then none
  else some ⟨tokens, .inside (read ++ [c])⟩

/-- Codes of surrogates are not read. -/
def stepCode (tokens : List Token) (read : List Char) (value : Nat) : (left : Nat) → Option Scan
  | left + 1 => some ⟨tokens, .code read value left⟩
  | 0 => if value.isValidChar then some ⟨tokens, .inside (read ++ [Char.ofNat value])⟩ else none

def step (s : Scan) (c : Char) : Option Scan :=
  match s.place with
  | .between => stepBetween s.tokens c
  | .inside read => stepInside s.tokens read c
  | .escaped read =>
    if c = 'u' then some ⟨s.tokens, .code read 0 3⟩
    else (unescape? c).map fun c => ⟨s.tokens, .inside (read ++ [c])⟩
  | .code read value left =>
    (hexDigit? c).bind fun digit => stepCode s.tokens read (16 * value + digit) left

end Scan

def scan? (text : String) : Option (List Token) :=
  match text.toList.foldlM Scan.step ⟨[], .between⟩ with
  | some ⟨tokens, .between⟩ => some tokens
  | _ => none

/-! ### Reading -/

/-- Objects that are not closed yet, the innermost first, with their members so far and the name of the member
whose value is being read. -/
abbrev Outer := List (List (String × Json) × String)

inductive State where
  | ahead (outer : Outer)
  /-- Behind an opening brace, where a name or the closing brace comes. -/
  | opened (outer : Outer)
  /-- Behind a comma, where a name comes. -/
  | next (outer : Outer) (members : List (String × Json))
  | named (outer : Outer) (members : List (String × Json)) (name : String)
  | after (outer : Outer) (j : Json)

def State.step : State → Token → Option State
  | .ahead outer, .text content => some (.after outer (.string content))
  | .ahead outer, .opening => some (.opened outer)
  | .opened outer, .closing => some (.after outer (.object []))
  | .opened outer, .text name => some (.named outer [] name)
  | .next outer members, .text name => some (.named outer members name)
  | .named outer members name, .colon => some (.ahead ((members, name) :: outer))
  | .after ((members, name) :: outer) j, .comma => some (.next outer (members ++ [(name, j)]))
  | .after ((members, name) :: outer) j, .closing => some (.after outer (.object (members ++ [(name, j)])))
  | _, _ => none

/-- The value that a text has in JSON. -/
def read? (text : String) : Option Json :=
  match (scan? text).bind fun tokens => tokens.foldlM State.step (.ahead []) with
  | some (.after [] j) => some j
  | _ => none

mutual

def tokens : Json → List Token
  | .string content => [.text content]
  | .object members => .opening :: ([.comma].intercalate (memberTokens members) ++ [.closing])

def memberTokens : List (String × Json) → List (List Token)
  | [] => []
  | (name, value) :: members => (.text name :: .colon :: value.tokens) :: memberTokens members

end

/-! ### What is scanned -/

/-- Between tokens the text is scanned to these. -/
def Scans (text : String) (tokens : List Token) : Prop :=
  ∀ before, text.toList.foldlM Scan.step ⟨before, .between⟩ = some ⟨before ++ tokens, .between⟩

theorem Scans.append {text text' : String} {ts ts' : List Token} (h : Scans text ts) (h' : Scans text' ts') :
    Scans (text ++ text') (ts ++ ts') := by
  intro before
  rw [String.toList_append, List.foldlM_append, h before, Option.bind_eq_bind, Option.bind_some, h',
    List.append_assoc]

theorem scans_empty : Scans "" [] := by
  intro before
  rw [List.append_nil]
  rfl

theorem Scans.intercalate {sep : String} {texts : List String} {ts : List Token} {tss : List (List Token)}
    (hsep : Scans sep ts) (h : List.Forall₂ Scans texts tss) :
    Scans (sep.intercalate texts) (ts.intercalate tss) := by
  induction h with
  | nil => exact scans_empty
  | @cons text ts' texts tss htext hrest ih =>
    cases hrest with
    | nil =>
      rw [String.intercalate_singleton, List.intercalate_singleton]
      exact htext
    | cons _ _ =>
      rw [String.intercalate_cons_cons, List.intercalate_cons_cons]
      exact (htext.append hsep).append ih

theorem scans_margin (level : Nat) : Scans (margin level) [] := by
  intro before
  rw [margin, String.toList_ofList, List.append_nil]
  induction 2 * level with
  | zero => rfl
  | succ n ih => exact ih

theorem hexDigit?_digitChar {n : Nat} (h : n < 16) : hexDigit? (Nat.digitChar n) = some n := by
  decide +revert

theorem foldlM_code (before : List Token) (read : List Char) {n : Nat} (h : n < 0x20) :
    ['\\', 'u', '0', '0', Nat.digitChar (n / 16), Nat.digitChar (n % 16)].foldlM Scan.step
        ⟨before, .inside read⟩ =
      some ⟨before, .inside (read ++ [Char.ofNat n])⟩ := by
  have hzero : hexDigit? '0' = some 0 := rfl
  have hhigh : hexDigit? (Nat.digitChar (n / 16)) = some (n / 16) := hexDigit?_digitChar (by omega)
  have hlow : hexDigit? (Nat.digitChar (n % 16)) = some (n % 16) := hexDigit?_digitChar (by omega)
  have hvalue : 16 * (n / 16) + n % 16 = n := Nat.div_add_mod ..
  have hvalid : n.isValidChar := .inl (by omega)
  simp [Scan.step, Scan.stepInside, Scan.stepCode, hzero, hhigh, hlow, hvalue, hvalid]

/-- An escaped character is read as itself. -/
theorem foldlM_escape (before : List Token) (read : List Char) (c : Char) :
    (escape c).foldlM Scan.step ⟨before, .inside read⟩ = some ⟨before, .inside (read ++ [c])⟩ := by
  unfold escape
  split
  case h_8 hquote hslash _ _ _ _ _ =>
    split
    · rename_i hcontrol
      rw [foldlM_code before read hcontrol, Char.ofNat_toNat]
    · rename_i hcontrol
      have hstep : Scan.stepInside before read c = some ⟨before, .inside (read ++ [c])⟩ := by
        rw [Scan.stepInside, if_neg hquote, if_neg hslash, if_neg hcontrol]
      simp [Scan.step, hstep]
  all_goals rfl

theorem foldlM_flatMap_escape (before : List Token) (read cs : List Char) :
    (cs.flatMap escape).foldlM Scan.step ⟨before, .inside read⟩ = some ⟨before, .inside (read ++ cs)⟩ := by
  induction cs generalizing read with
  | nil => rw [List.append_nil]; rfl
  | cons c cs ih =>
    rw [List.flatMap_cons, List.foldlM_append, foldlM_escape, Option.bind_eq_bind, Option.bind_some, ih,
      List.append_assoc, List.singleton_append]

theorem scans_quote (s : String) : Scans (quote s) [.text s] := by
  intro before
  have hopen : Scan.step ⟨before, .between⟩ '"' = some ⟨before, .inside []⟩ := rfl
  rw [quote, String.toList_ofList, List.foldlM_cons, hopen, Option.bind_eq_bind, Option.bind_some,
    List.foldlM_append, foldlM_flatMap_escape, List.nil_append]
  simp [Scan.step, Scan.stepInside]

theorem scans_renderAt (level : Nat) (j : Json) : Scans (j.renderAt level) j.tokens := by
  have hopening : Scans "\x7b" [.opening] := fun _ => rfl
  have hclosing : Scans "\x7d" [.closing] := fun _ => rfl
  have hcolon : Scans ": " [.colon] := fun _ => rfl
  have hcomma : Scans ",\n" [.comma] := fun _ => rfl
  have hline : Scans "\n" [] := fun before => by rw [List.append_nil]; rfl
  refine renderAt.induct (fun level j => Scans (j.renderAt level) j.tokens)
    (fun level members => List.Forall₂ Scans (renderMembers level members) (memberTokens members))
    ?string ?empty ?object ?nil ?cons level j
  case string =>
    intro level content
    rw [renderAt, tokens]
    exact scans_quote content
  case empty =>
    intro level
    rw [renderAt, tokens]
    exact hopening.append hclosing
  case object =>
    intro level members hne ih
    have hmembers := (hopening.append hline).append (hcomma.intercalate ih)
    have hall := ((hmembers.append hline).append (scans_margin level)).append hclosing
    rw [renderAt, tokens]
    · simpa using hall
    · exact hne
  case nil =>
    intro level
    exact .nil
  case cons =>
    intro level name value members hvalue hmembers
    rw [renderMembers, memberTokens]
    refine .cons ?_ hmembers
    exact (((scans_margin level).append (scans_quote name)).append hcolon).append hvalue

/-! ### What is read -/

/-- Wherever a value comes next, this one is read from its tokens. -/
def Reads (j : Json) : Prop :=
  ∀ outer, j.tokens.foldlM State.step (.ahead outer) = some (.after outer j)

/-- The members that are left of an object, from a state in which a name comes next. -/
theorem foldlM_memberTokens {outer : Outer} {before members : List (String × Json)} {s : State}
    (hne : members ≠ []) (h : ∀ m ∈ members, Reads m.2)
    (hstate : ∀ name, s.step (.text name) = some (.named outer before name)) :
    ([Token.comma].intercalate (memberTokens members) ++ [Token.closing]).foldlM State.step s =
      some (.after outer (.object (before ++ members))) := by
  -- members that have been read go over into `before`
  induction members generalizing before s with
  | nil => exact absurd rfl hne
  | cons m members ih =>
    obtain ⟨name, value⟩ := m
    obtain ⟨hvalue, hrest⟩ := List.forall_mem_cons.1 h
    have hmember : (.text name :: .colon :: value.tokens).foldlM State.step s =
        some (.after ((before, name) :: outer) value) := by
      rw [List.foldlM_cons, hstate]
      exact hvalue ((before, name) :: outer)
    rw [memberTokens]
    cases members with
    | nil =>
      rw [memberTokens, List.intercalate_singleton, List.foldlM_append, hmember]
      rfl
    | cons m' members =>
      have hnext := ih (s := .next outer (before ++ [(name, value)])) (List.cons_ne_nil _ _) hrest fun _ => rfl
      rw [← List.append_cons] at hnext
      rw [List.intercalate_cons_of_ne_nil, List.append_assoc, List.append_assoc, List.foldlM_append, hmember]
      · exact hnext
      · rw [memberTokens]
        exact List.cons_ne_nil _ _

theorem reads (j : Json) : Reads j := by
  refine tokens.induct Reads (fun members => ∀ m ∈ members, Reads m.2) ?string ?object ?nil ?cons j
  case string =>
    intro content outer
    rfl
  case object =>
    intro members ih outer
    rw [tokens]
    cases members with
    | nil => rfl
    | cons m ms =>
      have hmembers := foldlM_memberTokens (s := .opened outer) (List.cons_ne_nil m ms) ih fun _ => rfl
      exact hmembers
  case nil => exact fun m hm => absurd hm List.not_mem_nil
  case cons =>
    intro name value members hvalue hmembers
    exact List.forall_mem_cons.2 ⟨hvalue, hmembers⟩

theorem read?_render (j : Json) : read? j.render = some j := by
  have hscan : scan? j.render = some j.tokens := by
    rw [scan?, render, scans_renderAt 0 j, List.nil_append]
  rw [read?, hscan, Option.bind_some, reads]

/-- The layout and the escapes of a text may be others than those of rendering. -/
example : read? "\x7b \"a\\u0041\" :\n\"\\/\\u000A\" , \"b\" : \x7b\x7d\x7d" =
    some (.object [("aA", .string "/\n"), ("b", .object [])]) := rfl

end RouteTree.Text.Json
