import RouteTree.Documentation.ValueText

/-!
# Printing a value in one go

The text of a value is made from inside out: whatever is nested gets its text first, which is then cut into
lines and indented, once for every level. `DocValue.printed` writes the same text from left to right and
knows how deep it is. They agree where no text has lines of its own and nothing is replaced
(`Documenter.valueText_eq_printed`).

What a value prints at the depth `k` is one line, and maybe further lines that hang below it behind `k`
indents (`Hangs`). So it is indented by one more indent in front of the first line and by printing it one
level deeper (`Hangs.indentLines`). Only an empty text is not indented at all.
-/

namespace RouteTree

open Text (OneLine)

/-- The indent, `k` times. -/
def indents (indent : String) : (k : Nat) → String
  | 0 => ""
  | k + 1 => indents indent k ++ indent

namespace DocValue

mutual

/-- The text of a value that begins in a line behind `k` indents, types being shown by `shown`. Values
without text are not meant here. -/
def printed (indent : String) (shown : String → String) : DocValue → (k : Nat) → String
  | .type name, _ => shown name
  | .text content, _ => content
  | .flag on, _ => if on then "true" else "false"
  | .list items, k => "[" ++ printedItems indent shown items k ++ "\n" ++ indents indent k ++ "]"
  | .map entries, k => "\x7b" ++ printedEntries indent shown entries k ++ "\n" ++ indents indent k ++ "\x7d"
  | .listOf inner, k =>
    if inner.isBlock then
      "ListOf(" ++ ("\n" ++ indents indent (k + 1) ++ printed indent shown inner (k + 1)) ++
        "\n" ++ indents indent k ++ ")"
    else "ListOf(" ++ printed indent shown inner k ++ ")"
  | .value _, _ => ""

/-- The items of a list, each on a line of its own. -/
def printedItems (indent : String) (shown : String → String) : List DocValue → (k : Nat) → String
  | [], _ => ""
  | v :: items, k =>
    let text := printed indent shown v (k + 1)
    (if text = "" then "\n" ++ indents indent k else "\n" ++ indents indent (k + 1) ++ text) ++
      printedItems indent shown items k

/-- The entries of a map, each on a line of its own. -/
def printedEntries (indent : String) (shown : String → String) :
    List (String × DocValue) → (k : Nat) → String
  | [], _ => ""
  | (key, v) :: entries, k =>
    "\n" ++ indents indent (k + 1) ++ (key ++ ": " ++ printed indent shown v (k + 1)) ++
      printedEntries indent shown entries k

end

/-- Every part of the value has a text, and its texts, its keys and the names that its types are shown under
have no lines of their own. -/
inductive Plain (shown : String → String) : DocValue → Prop where
  | type {name : String} : OneLine (shown name) → Plain shown (.type name)
  | text {content : String} : OneLine content → Plain shown (.text content)
  | flag {on : Bool} : Plain shown (.flag on)
  | list {items : List DocValue} : (∀ v ∈ items, Plain shown v) → Plain shown (.list items)
  | map {entries : List (String × DocValue)} : (∀ e ∈ entries, OneLine e.1) →
    (∀ e ∈ entries, Plain shown e.2) → Plain shown (.map entries)
  | listOf {inner : DocValue} : Plain shown inner → Plain shown (.listOf inner)

end DocValue

/-! ### Hanging lines -/

/-- Lines behind `k` indents each, below what stands before them. -/
def hung (indent : String) (k : Nat) (ls : List String) : String :=
  String.join (ls.map fun l => "\n" ++ indents indent k ++ l)

/-- At every depth the text consists of the same lines, hung. -/
def Below (indent : String) (text : Nat → String) : Prop :=
  ∃ ls : List String, (∀ l ∈ ls, OneLine l) ∧ ∀ k, text k = hung indent k ls

/-- At every depth the text consists of the same first line and the same lines hung below, of which the last
is not empty. -/
def Hangs (indent : String) (text : Nat → String) : Prop :=
  ∃ (first : String) (rest : List String), (∀ l ∈ first :: rest, OneLine l) ∧ rest.getLast? ≠ some "" ∧
    ∀ k, text k = first ++ hung indent k rest

section
variable {indent first pre post : String} {k : Nat} {l : String} {ls ls' : List String}
  {text text' : Nat → String}

theorem hung_cons : hung indent k (l :: ls) = "\n" ++ indents indent k ++ l ++ hung indent k ls := by
  simp [hung]

theorem hung_append : hung indent k (ls ++ ls') = hung indent k ls ++ hung indent k ls' := by
  simp [hung]

theorem hung_singleton : hung indent k [l] = "\n" ++ indents indent k ++ l := by
  simp [hung]

theorem hung_succ : hung indent (k + 1) ls = hung indent k (ls.map (indent ++ ·)) := by
  simp [hung, indents, Function.comp_def, String.append_assoc]

theorem intercalate_eq_hung (indent first : String) (ls : List String) :
    "\n".intercalate (first :: ls) = first ++ hung indent 0 ls := by
  induction ls generalizing first with
  | nil => simp [hung]
  | cons l ls ih => rw [String.intercalate_cons_cons, ih, hung_cons]; simp [indents, String.append_assoc]

theorem enclosed_eq (indent opening : String) (ls : List String) (closing : String) :
    Documenter.enclosed opening ls closing =
      opening ++ hung indent 0 ls ++ "\n" ++ indents indent 0 ++ closing := by
  rw [Documenter.enclosed, intercalate_eq_hung indent, hung_append, hung_singleton]
  simp [String.append_assoc]

theorem Below.congr (h : Below indent text) (heq : ∀ k, text' k = text k) : Below indent text' :=
  funext heq ▸ h

theorem below_empty : Below indent fun _ => "" := ⟨[], by simp, fun _ => rfl⟩

theorem below_indents : Below indent fun k => "\n" ++ indents indent k :=
  ⟨[""], by simpa using Text.oneLine_empty, fun k => by simp [hung_singleton]⟩

theorem Below.append (h : Below indent text) (h' : Below indent text') :
    Below indent fun k => text k ++ text' k := by
  obtain ⟨ls, hls, htext⟩ := h
  obtain ⟨ls', hls', htext'⟩ := h'
  refine ⟨ls ++ ls', fun l hl => ?_, fun k => ?_⟩
  · exact (List.mem_append.1 hl).elim (hls l) (hls' l)
  · rw [hung_append, ← htext, ← htext']

theorem hangs_of_oneLine (h : OneLine l) : Hangs indent fun _ => l :=
  ⟨l, [], by simpa using h, by simp, fun k => by simp [hung]⟩

/-- Hanging lines between brackets, the second of which stands on a line of its own. -/
theorem Below.hangs (h : Below indent text) (hpre : OneLine pre) (hpost : OneLine post) (hne : post ≠ "") :
    Hangs indent fun k => pre ++ text k ++ "\n" ++ indents indent k ++ post := by
  obtain ⟨ls, hls, htext⟩ := h
  refine ⟨pre, ls ++ [post], fun l hl => ?_, ?_, fun k => ?_⟩
  · simp only [List.mem_cons, List.mem_append, List.not_mem_nil, or_false] at hl
    rcases hl with rfl | hl | rfl
    · exact hpre
    · exact hls l hl
    · exact hpost
  · rw [List.getLast?_concat]
    exact fun h => hne (Option.some.inj h)
  · rw [hung_append, hung_singleton, ← htext]
    simp [String.append_assoc]

namespace Hangs

theorem congr (h : Hangs indent text) (heq : ∀ k, text' k = text k) : Hangs indent text' := funext heq ▸ h

/-- A text between brackets on its first and on its last line. -/
theorem enclose (h : Hangs indent text) (hpre : OneLine pre) (hpost : OneLine post) :
    Hangs indent fun k => pre ++ text k ++ post := by
  obtain ⟨first, rest, hls, hlast, htext⟩ := h
  have hfirst := hpre.append (hls first (List.mem_cons_self ..))
  -- `post` goes to the last line, which is the first if there is no other
  rcases List.eq_nil_or_concat rest with rfl | ⟨mid, last, rfl⟩
  · refine ⟨pre ++ first ++ post, [], by simpa using hfirst.append hpost, by simp, fun k => ?_⟩
    simp [htext, hung, String.append_assoc]
  · rw [List.concat_eq_append] at hls hlast htext
    refine ⟨pre ++ first, mid ++ [last ++ post], fun l hl => ?_, ?_, fun k => ?_⟩
    · simp only [List.mem_cons, List.mem_append, List.not_mem_nil, or_false] at hl hls
      rcases hl with rfl | hl | rfl
      · exact hfirst
      · exact hls l (.inr (.inl hl))
      · exact (hls last (.inr (.inr rfl))).append hpost
    · rw [List.getLast?_concat] at hlast ⊢
      exact fun h => hlast (congrArg some (String.append_eq_empty_iff.1 (Option.some.inj h)).1)
    · simp [htext, hung_append, hung_singleton, String.append_assoc]

/-- One level deeper and behind one more indent, all lines of a text hang. -/
theorem below (h : Hangs indent text) (hi : OneLine indent) :
    Below indent fun k => "\n" ++ indents indent (k + 1) ++ text (k + 1) := by
  obtain ⟨first, rest, hls, -, htext⟩ := h
  refine ⟨(first :: rest).map (indent ++ ·), fun l hl => ?_, fun k => ?_⟩
  · obtain ⟨l', hl', rfl⟩ := List.mem_map.1 hl
    exact hi.append (hls l' hl')
  · rw [← hung_succ, hung_cons]
    simp [htext, String.append_assoc]

theorem eq_empty_iff (h : Hangs indent text) (k k' : Nat) : text k = "" ↔ text k' = "" := by
  obtain ⟨first, rest, -, -, htext⟩ := h
  have hempty : ∀ k, text k = "" ↔ first = "" ∧ rest = [] := by
    intro k
    rw [htext, String.append_eq_empty_iff]
    cases rest <;> simp [hung]
  rw [hempty, hempty]

theorem indentLines (h : Hangs indent text) :
    Text.indentLines indent (text 0) = if text 0 = "" then "" else indent ++ text 1 := by
  obtain ⟨first, rest, hls, hlast, htext⟩ := h
  split
  · rename_i he
    rw [he, Text.indentLines, Text.lines_empty]
    rfl
  · rename_i he
    -- an empty last line would not come back from cutting the text into lines
    have hlast' : (first :: rest).getLast? ≠ some "" := by
      cases rest with
      | nil =>
        rw [htext] at he
        simpa [hung] using he
      | cons l rest => rwa [List.getLast?_cons_cons]
    rw [htext, htext, ← intercalate_eq_hung, Text.indentLines, Text.lines_intercalate hls hlast',
      List.map_cons, intercalate_eq_hung indent, ← hung_succ, String.append_assoc]

end Hangs

end

namespace DocValue
variable {indent : String} {shown : String → String} {v : DocValue} {items : List DocValue}
  {entries : List (String × DocValue)}

/-! ### What is printed -/

theorem printedItems_below (hi : OneLine indent) (h : ∀ v ∈ items, Hangs indent (v.printed indent shown)) :
    Below indent (printedItems indent shown items) := by
  induction items with
  | nil => exact below_empty.congr fun k => by rw [printedItems]
  | cons v items ih =>
    have hv := h v (List.mem_cons_self ..)
    have hitems := ih fun v hv => h v (List.mem_cons_of_mem _ hv)
    by_cases he : v.printed indent shown 1 = ""
    · refine (below_indents.append hitems).congr fun k => ?_
      rw [printedItems, if_pos ((hv.eq_empty_iff (k + 1) 1).2 he)]
    · refine ((hv.below hi).append hitems).congr fun k => ?_
      rw [printedItems, if_neg fun hk => he ((hv.eq_empty_iff (k + 1) 1).1 hk)]

theorem entry_hangs {e : String × DocValue} (hkey : OneLine e.1) (h : Hangs indent (e.2.printed indent shown)) :
    Hangs indent fun k => e.1 ++ ": " ++ e.2.printed indent shown k := by
  have hcolon : OneLine ": " := by decide
  exact (h.enclose (hkey.append hcolon) Text.oneLine_empty).congr fun k => by simp

theorem printedEntries_below (hi : OneLine indent)
    (h : ∀ e ∈ entries, Hangs indent fun k => e.1 ++ ": " ++ e.2.printed indent shown k) :
    Below indent (printedEntries indent shown entries) := by
  induction entries with
  | nil => exact below_empty.congr fun k => by rw [printedEntries]
  | cons e entries ih =>
    have he := h e (List.mem_cons_self ..)
    have hentries := ih fun e he => h e (List.mem_cons_of_mem _ he)
    exact ((he.below hi).append hentries).congr fun k => by rw [printedEntries]

theorem Plain.hangs (hi : OneLine indent) (hv : v.Plain shown) : Hangs indent (v.printed indent shown) := by
  induction hv with
  | type h => exact (hangs_of_oneLine h).congr fun k => by rw [printed]
  | text h => exact (hangs_of_oneLine h).congr fun k => by rw [printed]
  | @flag on =>
    have h : OneLine (if on then "true" else "false") := by cases on <;> decide
    exact (hangs_of_oneLine h).congr fun k => by rw [printed]
  | list _ ih =>
    have hpre : OneLine "[" := by decide
    have hpost : OneLine "]" := by decide
    exact ((printedItems_below hi ih).hangs hpre hpost (by decide)).congr fun k => by rw [printed]
  | map hkeys _ ih =>
    have h := printedEntries_below hi fun e he => entry_hangs (hkeys e he) (ih e he)
    have hpre : OneLine "\x7b" := by decide
    have hpost : OneLine "\x7d" := by decide
    exact (h.hangs hpre hpost (by decide)).congr fun k => by rw [printed]
  | @listOf inner _ ih =>
    have hpre : OneLine "ListOf(" := by decide
    have hpost : OneLine ")" := by decide
    by_cases hb : inner.isBlock = true
    · exact ((ih.below hi).hangs hpre hpost (by decide)).congr fun k => by rw [printed, if_pos hb]
    · exact (ih.enclose hpre hpost).congr fun k => by rw [printed, if_neg hb]

/-- Where the items begin at the depth 0, they are the indented texts that they print there. -/
theorem printedItems_zero (h : ∀ v ∈ items, Hangs indent (v.printed indent shown)) :
    printedItems indent shown items 0 =
      hung indent 0 (items.map fun v => Text.indentLines indent (v.printed indent shown 0)) := by
  induction items with
  | nil => rw [printedItems]; rfl
  | cons v items ih =>
    have hv := h v (List.mem_cons_self ..)
    rw [printedItems, ih fun v hv => h v (List.mem_cons_of_mem _ hv), List.map_cons, hung_cons, hv.indentLines]
    by_cases he : v.printed indent shown 0 = ""
    · have he' := (hv.eq_empty_iff 0 (0 + 1)).1 he
      simp [he, he']
    · have he' := mt (hv.eq_empty_iff 0 (0 + 1)).2 he
      simp [he, he', indents, String.append_assoc]

theorem printedEntries_zero
    (h : ∀ e ∈ entries, Hangs indent fun k => e.1 ++ ": " ++ e.2.printed indent shown k) :
    printedEntries indent shown entries 0 = hung indent 0 (entries.map fun e =>
      Text.indentLines indent (e.1 ++ ": " ++ e.2.printed indent shown 0)) := by
  induction entries with
  | nil => rw [printedEntries]; rfl
  | cons e entries ih =>
    have he := (h e (List.mem_cons_self ..)).indentLines
    have hne : e.1 ++ ": " ++ e.2.printed indent shown 0 ≠ "" := by simp
    rw [if_neg hne] at he
    rw [printedEntries, ih fun e he => h e (List.mem_cons_of_mem _ he), List.map_cons, hung_cons, he]
    simp [indents, String.append_assoc]

theorem size_le_sizeItems (hv : v ∈ items) : v.size ≤ sizeItems items := by
  induction items with
  | nil => cases hv
  | cons w items ih =>
    rw [sizeItems]
    rcases List.mem_cons.1 hv with rfl | hv
    · omega
    · have := ih hv
      omega

theorem size_le_sizeEntries {e : String × DocValue} (he : e ∈ entries) : e.2.size ≤ sizeEntries entries := by
  induction entries with
  | nil => cases he
  | cons e' entries ih =>
    rw [sizeEntries]
    rcases List.mem_cons.1 he with rfl | he
    · omega
    · have := ih he
      omega

theorem printed_ne_empty (hb : v.isBlock = true) (k : Nat) : v.printed indent shown k ≠ "" := by
  cases v with
  | list items => rw [printed]; simp
  | map entries => rw [printed]; simp
  | type _ => cases hb
  | text _ => cases hb
  | flag _ => cases hb
  | listOf _ => cases hb
  | value _ => cases hb

theorem size_lt_of_mem_parts {part : DocValue} (h : part ∈ v.parts) : part.size < v.size := by
  cases v with
  | list items =>
    have : part.size ≤ sizeItems items := size_le_sizeItems h
    rw [size]
    omega
  | map entries =>
    obtain ⟨e, he, rfl⟩ := List.mem_map.1 h
    have := size_le_sizeEntries he
    rw [size]
    omega
  | listOf inner =>
    obtain rfl := List.mem_singleton.1 h
    rw [size]
    omega
  | type _ => cases h
  | text _ => cases h
  | flag _ => cases h
  | value _ => cases h

theorem Plain.of_mem_parts {part : DocValue} (hv : v.Plain shown) (h : part ∈ v.parts) : part.Plain shown := by
  cases hv with
  | list hitems => exact hitems part h
  | map _ hentries =>
    obtain ⟨e, he, rfl⟩ := List.mem_map.1 h
    exact hentries e he
  | listOf hinner => exact List.mem_singleton.1 h ▸ hinner
  | type _ => cases h
  | text _ => cases h
  | flag => cases h

end DocValue

theorem mapM_of_forall_ok {α β ε : Type} {f : α → ExceptT ε Option β} {g : α → β} {xs : List α}
    (h : ∀ x ∈ xs, f x = pure (g x)) : xs.mapM f = pure (xs.map g) := by
  induction xs with
  | nil => rfl
  | cons x xs ih =>
    rw [List.mapM_cons, h x (List.mem_cons_self ..), ih fun y hy => h y (List.mem_cons_of_mem _ hy)]
    rfl

namespace Documenter

/-- The text that a value prints in one go. -/
def printed (d : Documenter) (v : DocValue) : String :=
  v.printed d.settings.documentation.indent d.shown 0

variable {d : Documenter} {v : DocValue}

theorem replaced_of_none (hs : d.substitutes = []) (ht : d.transform = none) (v : DocValue) :
    d.replaced v = .inr v := by
  have hnone : d.substitute? v = none := by rw [substitute?, hs]; rfl
  rw [replaced, hnone, ht]
  rfl

/-- If the parts of a plain value have the texts that they print, it gets the text that it prints. -/
theorem assemble_of_plain (hi : OneLine d.settings.documentation.indent) (hv : v.Plain d.shown) :
    d.assemble v (v.parts.map d.printed) = pure (d.printed v) := by
  cases hv with
  | type _ => rw [assemble, printed, DocValue.printed]
  | text _ => rw [assemble, printed, DocValue.printed]
  | flag => rw [assemble, printed, DocValue.printed]
  | @list items hitems =>
    have hlines : items.map (fun item => d.indented (d.printed item)) = (items.map d.printed).map d.indented := by
      rw [List.map_map]
      rfl
    rw [assemble, DocValue.parts, ← hlines, enclosed_eq d.settings.documentation.indent, printed, DocValue.printed,
      DocValue.printedItems_zero fun item hitem => (hitems item hitem).hangs hi]
    rfl
  | @map entries hkeys hentries =>
    have hlines : entries.map (fun e => d.indented (e.1 ++ ": " ++ d.printed e.2)) =
        entries.zipWith (fun entry text => d.indented (entry.1 ++ ": " ++ text))
          ((entries.map (·.2)).map d.printed) := by
      rw [List.map_map, List.zipWith_map_right, List.zipWith_self]
      rfl
    rw [assemble, DocValue.parts, ← hlines, enclosed_eq d.settings.documentation.indent, printed, DocValue.printed,
      DocValue.printedEntries_zero fun e he => DocValue.entry_hangs (hkeys e he) ((hentries e he).hangs hi)]
    rfl
  | @listOf inner hinner =>
    have htext := (hinner.hangs hi).indentLines
    have hjoin : String.join ([inner].map d.printed) = d.printed inner := by simp
    rw [assemble, DocValue.parts, hjoin]
    show (if inner.isBlock then _ else _) = (pure (DocValue.printed _ _ (.listOf inner) 0) : TextM String)
    rw [DocValue.printed]
    by_cases hb : inner.isBlock = true
    · rw [if_neg (DocValue.printed_ne_empty hb 0)] at htext
      have hopen : "ListOf(\n" = "ListOf(" ++ "\n" := rfl
      have hclose : "\n)" = "\n" ++ ")" := rfl
      rw [if_pos hb, if_pos hb, indented, printed, htext, hopen, hclose]
      simp only [indents, String.empty_append, String.append_assoc]
    · rw [if_neg hb, if_neg hb, printed]

/-- Where nothing is replaced and no text has lines of its own, the text of a value is what it prints in one
go. -/
theorem valueText_eq_printed (hs : d.substitutes = []) (ht : d.transform = none)
    (hi : OneLine d.settings.documentation.indent) {v : DocValue} (hv : v.Plain d.shown) :
    d.valueText v = some (.ok (v.printed d.settings.documentation.indent d.shown 0)) := by
  have hparts : ∀ part ∈ v.parts, d.valueText part = some (.ok (d.printed part)) := fun part hpart =>
    valueText_eq_printed hs ht hi (hv.of_mem_parts hpart)
  rw [valueText_of_value (replaced_of_none hs ht v), mapM_of_forall_ok hparts, pure_bind, assemble_of_plain hi hv]
  rfl
termination_by v.size
decreasing_by exact DocValue.size_lt_of_mem_parts hpart

/-- An empty text in a list two levels deep keeps the indents of the list, and a list in two wrappers stands
one level deeper than the entry that it belongs to. -/
theorem valueText_eq_printed_nested :
    let d : Documenter := withShownName { settings := { documentation := { indent := "  " } } } "int" "integer"
    let v : DocValue := .map
      [("a", .list [.text "", .listOf (.map [("b", .type "int")])]), ("c", .listOf (.listOf (.list [.flag true])))]
    d.substitutes = [] ∧ d.transform = none ∧ OneLine d.settings.documentation.indent ∧ v.Plain d.shown ∧
      d.valueText v = some (.ok (
        "\x7b\n  a: [\n  \n    ListOf(\n      \x7b\n        b: integer\n      \x7d\n    )\n  ]\n" ++
        "  c: ListOf(ListOf(\n    [\n      true\n    ]\n  ))\n\x7d")) := by
  intro d v
  have hint : d.shown "int" = "integer" := rfl
  have hindent : d.settings.documentation.indent = "  " := rfl
  have hi : OneLine d.settings.documentation.indent := by decide
  have hv : v.Plain d.shown := by
    refine .map (by decide) (List.forall_mem_cons.2 ⟨.list (List.forall_mem_cons.2 ⟨.text (by decide), ?_⟩), ?_⟩)
    · refine List.forall_mem_singleton.2 (.listOf (.map (by decide) ?_))
      exact List.forall_mem_singleton.2 (.type (hint ▸ by decide))
    · refine List.forall_mem_singleton.2 (.listOf (.listOf (.list ?_)))
      exact List.forall_mem_singleton.2 .flag
  refine ⟨rfl, rfl, hi, hv, ?_⟩
  rw [valueText_eq_printed rfl rfl hi hv]
  simp [v, DocValue.printed, DocValue.printedItems, DocValue.printedEntries, DocValue.isBlock, indents, hint,
    hindent]

end Documenter

end RouteTree
