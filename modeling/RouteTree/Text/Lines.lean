/-!
# Lines

A text is cut at its line feeds, and a carriage return before a line feed goes with it. A line feed
at the end starts no further line, so the empty text has no lines; a carriage return elsewhere is
part of its line.
-/

namespace RouteTree.Text

/-- The lines of a list of characters. -/
def splitLines : List Char → List (List Char)
  | [] => []
  | '\r' :: '\n' :: cs => [] :: splitLines cs
  | '\n' :: cs => [] :: splitLines cs
  | c :: cs =>
    match splitLines cs with
    | [] => [[c]]
    | l :: ls => (c :: l) :: ls

def lines (s : String) : List String := (splitLines s.toList).map String.ofList

/-- The lines of `s`, each with `indent` before it. -/
def indentLines (indent s : String) : String := "\n".intercalate ((lines s).map (indent ++ ·))

theorem splitLines_of_forall {cs : List Char} (hne : cs ≠ [])
    (h : ∀ c ∈ cs, c ≠ '\n' ∧ c ≠ '\r') : splitLines cs = [cs] := by
  induction cs with
  | nil => contradiction
  | cons c cs ih =>
    obtain ⟨hn, hr⟩ := h c (List.mem_cons_self ..)
    rw [splitLines]
    · cases cs with
      | nil => rfl
      | cons d ds => rw [ih (by simp) fun x hx => h x (List.mem_cons_of_mem _ hx)]
    · rintro _ rfl; exact absurd rfl hr
    · rintro rfl; exact absurd rfl hn

theorem splitLines_append {cs : List Char} (h : ∀ c ∈ cs, c ≠ '\n' ∧ c ≠ '\r') (rest : List Char) :
    splitLines (cs ++ '\n' :: rest) = cs :: splitLines rest := by
  induction cs with
  | nil => rw [List.nil_append, splitLines]
  | cons c cs ih =>
    obtain ⟨hn, hr⟩ := h c (List.mem_cons_self ..)
    rw [List.cons_append, splitLines, ih fun x hx => h x (List.mem_cons_of_mem _ hx)]
    · rintro _ rfl; exact absurd rfl hr
    · rintro rfl; exact absurd rfl hn

/-- The text has neither a line feed nor a carriage return. -/
def OneLine (s : String) : Prop := ∀ c ∈ s.toList, c ≠ '\n' ∧ c ≠ '\r'

instance (s : String) : Decidable (OneLine s) :=
  List.decidableBAll (fun c => c ≠ '\n' ∧ c ≠ '\r') s.toList

theorem oneLine_empty : OneLine "" := fun _ hc => absurd hc List.not_mem_nil

theorem OneLine.append {a b : String} (ha : OneLine a) (hb : OneLine b) : OneLine (a ++ b) := by
  intro c hc
  rw [String.toList_append] at hc
  exact (List.mem_append.1 hc).elim (ha c) (hb c)

theorem lines_empty : lines "" = [] := rfl

theorem lines_of_oneLine {s : String} (h : OneLine s) (hne : s ≠ "") : lines s = [s] := by
  have hchars : s.toList ≠ [] := fun hnil => hne (String.toList_eq_nil_iff.1 hnil)
  rw [lines, splitLines_of_forall hchars h, List.map_singleton, String.ofList_toList]

theorem lines_append {s : String} (h : OneLine s) (rest : String) :
    lines (s ++ "\n" ++ rest) = s :: lines rest := by
  rw [String.append_assoc, lines, String.toList_append, String.toList_append]
  show List.map _ (splitLines (s.toList ++ '\n' :: rest.toList)) = _
  rw [splitLines_append h, List.map_cons, String.ofList_toList]
  rfl

/-- The lines of lines put together, if the last one is not lost for being empty. -/
theorem lines_intercalate {ls : List String} (h : ∀ l ∈ ls, OneLine l) (hlast : ls.getLast? ≠ some "") :
    lines ("\n".intercalate ls) = ls := by
  induction ls with
  | nil => rfl
  | cons l ls ih =>
    have hl : OneLine l := h l (List.mem_cons_self ..)
    cases ls with
    | nil =>
      rw [String.intercalate_singleton, lines_of_oneLine hl fun hl => hlast (congrArg some hl)]
    | cons l' ls =>
      rw [String.intercalate_cons_cons, lines_append hl, ih fun x hx => h x (List.mem_cons_of_mem _ hx)]
      rwa [List.getLast?_cons_cons] at hlast

end RouteTree.Text
