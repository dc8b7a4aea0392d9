import Nonlocal.Proofs.Model.Legible

/-!
# The text of a model is read back

The text of a model is taken apart from the outside in: into lines at the line feeds, into
modules at their closing lines, and each line at the marks of a declaration or of a
command. Declarations and commands of a module are told apart by the bracket with which a
command begins. The empty lines between commands are left out, and with them the keys;
everything else is found again.
-/

namespace Nonlocal

variable {α : Type}

/-- A command whose names are legible. -/
structure Command.Legible (command : Command α) : Prop where
  label : ∀ label, command.label = some label → Nonlocal.Legible label
  guard : ∀ equation ∈ command.guard, Nonlocal.Legible equation.name
  branches : ∀ branch ∈ command.branches, ∀ update ∈ branch.updates,
    Nonlocal.Legible update.name

/-- A module whose names are legible. -/
structure Module.Legible (part : Module α) : Prop where
  name : Nonlocal.Legible part.name
  declarations : ∀ declaration ∈ part.declarations, Nonlocal.Legible declaration.name
  commands : ∀ command ∈ part.commands, command.Legible

/-- A model whose names are legible. -/
def Model.Legible (model : Model α) : Prop := ∀ part ∈ model.modules, part.Legible

section Declarations

/-- The text of a domain. -/
def Domain.written : Domain → String
  | .range low high => "[" ++ (Value.int low).text ++ ".." ++ (Value.int high).text ++ "]"
  | .bool => "bool"

/-- The text of a declaration as characters. -/
theorem Declaration.toList_text (declaration : Declaration) :
    declaration.text.toList = declaration.name.toList ++ ' ' :: (':' :: ' '
      :: (declaration.domain.written.toList ++ ' ' :: ("init ".toList
        ++ (declaration.init.text.toList ++ [';'])))) := by
  have text : declaration.text = declaration.name ++ " : " ++ declaration.domain.written
      ++ " init " ++ declaration.init.text ++ ";" := by
    unfold Declaration.text Domain.written
    cases declaration.domain <;> rfl
  simp [text]

/-- The text of a range as characters. -/
theorem Domain.toList_range (low high : Int) :
    (Domain.range low high).written.toList = '[' :: ((Value.int low).text.toList
      ++ '.' :: ('.' :: ((Value.int high).text.toList ++ [']']))) := by
  simp [Domain.written]

/-- No bound of a range has a mark. -/
theorem Value.not_mem_text (value : Value) {mark : Char} (foreign : Identifier.isPart mark = false)
    (other : mark ≠ '-') : mark ∉ value.text.toList := by
  intro member
  rcases Value.mem_text member with part | sign
  · simp [part] at foreign
  · exact other sign

/-- A domain is written without spaces and line feeds. -/
theorem Domain.not_mem_written (domain : Domain) {blank : Char}
    (isBlank : blank = ' ' ∨ blank = '\n') : blank ∉ domain.written.toList := by
  have foreign : Identifier.isPart blank = false ∧ blank ≠ '-' ∧ blank ∉ "[..]bool".toList := by
    rcases isBlank with rfl | rfl <;> decide
  obtain ⟨notPart, notSign, notMark⟩ := foreign
  cases domain with
  | range low high =>
    have inLow := Value.not_mem_text (.int low) notPart notSign
    have inHigh := Value.not_mem_text (.int high) notPart notSign
    rw [Domain.toList_range]
    simp_all
  | bool =>
    simp only [Domain.written]
    simp_all

/-- Different domains have different texts. -/
theorem Domain.written_injective : Function.Injective Domain.written := by
  have point (value : Int) : '.' ∉ (Value.int value).text.toList :=
    Value.not_mem_text _ (by decide) (by decide)
  have bracket (low high : Int) : (Domain.range low high).written ≠ Domain.bool.written := by
    intro same
    have texts := congrArg String.toList same
    rw [Domain.toList_range] at texts
    simp [Domain.written] at texts
  intro first second same
  cases first with
  | range low high =>
    cases second with
    | range low' high' =>
      have texts := congrArg String.toList same
      rw [Domain.toList_range, Domain.toList_range] at texts
      obtain ⟨lows, rest⟩ := Text.cut_unique (point low) (point low') (List.cons.inj texts).2
      have highs := List.append_cancel_right (List.cons.inj rest).2
      rw [Value.int_text_injective (String.toList_inj.mp lows),
        Value.int_text_injective (String.toList_inj.mp highs)]
    | bool => exact (bracket low high same).elim
  | bool =>
    cases second with
    | range low high => exact (bracket low high same.symm).elim
    | bool => rfl

/-- A declaration is read back. -/
theorem Declaration.text_injective {first second : Declaration} (legible : Legible first.name)
    (legible' : Legible second.name) (same : first.text = second.text) : first = second := by
  have texts := congrArg String.toList same
  rw [Declaration.toList_text, Declaration.toList_text] at texts
  obtain ⟨names, rest⟩ := Text.cut_unique (legible.not_mem (by decide))
    (legible'.not_mem (by decide)) texts
  obtain ⟨domains, rest⟩ := Text.cut_unique (first.domain.not_mem_written (.inl rfl))
    (second.domain.not_mem_written (.inl rfl)) (List.cons.inj (List.cons.inj rest).2).2
  have inits := List.append_cancel_right (List.append_cancel_left rest)
  obtain ⟨name, domain, init⟩ := first
  obtain ⟨name', domain', init'⟩ := second
  rw [Declaration.mk.injEq]
  exact ⟨String.toList_inj.mp names, Domain.written_injective (String.toList_inj.mp domains),
    Value.text_injective (String.toList_inj.mp inits)⟩

/-- No line feed is in a declaration. -/
theorem Declaration.not_mem_text {declaration : Declaration} (legible : Legible declaration.name) :
    '\n' ∉ declaration.text.toList := by
  have inName : '\n' ∉ declaration.name.toList := legible.not_mem (by decide)
  have inDomain := declaration.domain.not_mem_written (.inr rfl)
  have inInit : '\n' ∉ declaration.init.text.toList :=
    Value.not_mem_text _ (by decide) (by decide)
  simp [Declaration.toList_text, inName, inDomain, inInit]

end Declarations

section Commands

variable [ScalarText α] [Readable α] [One α] [BEq α]

/-- Commands that are written alike: only their keys, and the weight of a lone certain
branch, can be different. -/
structure Command.Alike (first second : Command α) : Prop where
  label : first.label = second.label
  guard : first.guard = second.guard
  branches : Branch.Alike first.branches second.branches

omit [Readable α] in
/-- The text of a command as characters. -/
theorem Command.toList_text (command : Command α) :
    command.text.toList = '[' :: ((command.label.getD "").toList ++ ']' :: (' '
      :: (((guardText command.guard).toList ++ [' ', '-']) ++ '>' :: (' '
        :: ((branchesText command.branches).toList ++ [';']))))) := by
  have text : command.text = "[" ++ command.label.getD "" ++ "] " ++ guardText command.guard
      ++ " -> " ++ branchesText command.branches ++ ";" := rfl
  simp [text]

omit [ScalarText α] [Readable α] [One α] [BEq α] in
/-- The label of a command has only the characters of names. -/
theorem Command.Legible.not_mem_label {command : Command α} (legible : command.Legible)
    {mark : Char} (foreign : Identifier.isPart mark = false) :
    mark ∉ (command.label.getD "").toList := by
  cases labelled : command.label with
  | none => simp
  | some label => exact (legible.label label labelled).not_mem foreign

omit [ScalarText α] [Readable α] [One α] [BEq α] in
/-- No label is empty, so a command without one is told from a command with one. -/
theorem Command.Legible.label_eq {first second : Command α} (legible : first.Legible)
    (legible' : second.Legible) (same : first.label.getD "" = second.label.getD "") :
    first.label = second.label := by
  cases labelled : first.label with
  | none =>
    cases labelled' : second.label with
    | none => rfl
    | some label =>
      rw [labelled, labelled'] at same
      exact ((legible'.label label labelled').inhabited same.symm).elim
  | some label =>
    cases labelled' : second.label with
    | none =>
      rw [labelled, labelled'] at same
      exact ((legible.label label labelled).inhabited same).elim
    | some other =>
      rw [labelled, labelled'] at same
      exact congrArg some same

/-- A command is read back, but for its key and the weight of a lone certain branch. -/
theorem Command.alike_of_text_eq {first second : Command α} (legible : first.Legible)
    (legible' : second.Legible) (same : first.text = second.text) : first.Alike second := by
  have arrow {guard : List Binding} (legible : ∀ equation ∈ guard, Nonlocal.Legible equation.name) :
      '>' ∉ (guardText guard).toList ++ [' ', '-'] := by
    rw [List.mem_append, not_or]
    exact ⟨not_mem_guardText legible (by decide), by decide⟩
  have texts := congrArg String.toList same
  rw [Command.toList_text, Command.toList_text] at texts
  obtain ⟨labels, rest⟩ := Text.cut_unique (legible.not_mem_label (by decide))
    (legible'.not_mem_label (by decide)) (List.cons.inj texts).2
  obtain ⟨guards, rest⟩ := Text.cut_unique (arrow legible.guard) (arrow legible'.guard)
    (List.cons.inj rest).2
  have branches := List.append_cancel_right (List.cons.inj rest).2
  exact {
    label := legible.label_eq legible' (String.toList_inj.mp labels)
    guard := conjunction_injective relation_equation legible.guard legible'.guard
      (String.toList_inj.mp (List.append_cancel_right guards))
    branches := branchesText_injective legible.branches legible'.branches
      (String.toList_inj.mp branches) }

/-- No line feed is in a command. -/
theorem Command.not_mem_text {command : Command α} (legible : command.Legible) :
    '\n' ∉ command.text.toList := by
  have inGuard : '\n' ∉ (guardText command.guard).toList :=
    not_mem_guardText legible.guard (by decide)
  have inBranches := not_mem_branchesText legible.branches
  have inLabel : '\n' ∉ (command.label.getD "").toList := legible.not_mem_label (by decide)
  simp [Command.toList_text, inGuard, inBranches, inLabel]

end Commands

section Modules

variable [ScalarText α] [One α] [BEq α]

/-- Modules that are written alike. -/
structure Module.Alike (first second : Module α) : Prop where
  name : first.name = second.name
  declarations : first.declarations = second.declarations
  commands : List.Forall₂ Command.Alike first.commands second.commands

/-- Models that are written alike. -/
structure Model.Alike (first second : Model α) : Prop where
  kind : first.kind = second.kind
  modules : List.Forall₂ Module.Alike first.modules second.modules

/-- Whether a line begins like a command. -/
def opensCommand (line : String) : Bool := ['\t', '['].isPrefixOf line.toList

/-- Whether a line begins like a declaration: it is indented, and no command. -/
def opensDeclaration (line : String) : Bool :=
  ['\t'].isPrefixOf line.toList && !opensCommand line

/-- The line of a command begins like one. -/
theorem opensCommand_command (command : Command α) :
    opensCommand ("\t" ++ command.text) = true := by
  simp [opensCommand, Command.toList_text]

omit [ScalarText α] [One α] [BEq α] in
/-- The line of a declaration does not. -/
theorem opensCommand_declaration {declaration : Declaration} (legible : Legible declaration.name) :
    opensCommand ("\t" ++ declaration.text) = false := by
  obtain ⟨first, rest, whole, part⟩ := legible.starts
  have notBracket : ('[' == first) = false := by
    rw [beq_eq_false_iff_ne]
    rintro rfl
    exact absurd part (by decide)
  simp [opensCommand, Declaration.toList_text, whole, List.isPrefixOf, notBracket]

/-- Among the lines of commands those that begin like one are those of the commands. -/
theorem filter_commandLines (previous : Option Family) (commands : List (Command α)) :
    (commandLines previous commands).filter opensCommand
      = commands.map fun command => "\t" ++ command.text := by
  induction commands generalizing previous with
  | nil => rfl
  | cons command rest ih =>
    have line : (("\t" ++ command.text) :: commandLines (some command.key.family) rest).filter
        opensCommand = ("\t" ++ command.text) :: rest.map fun command => "\t" ++ command.text := by
      rw [List.filter_cons_of_pos (opensCommand_command command), ih]
    simp only [commandLines]
    split
    · exact line
    · rw [List.filter_cons_of_neg (by decide)]
      exact line

/-- All other lines of commands are empty. -/
theorem mem_commandLines {previous : Option Family} {commands : List (Command α)} {line : String}
    (member : line ∈ commandLines previous commands) :
    line = "" ∨ ∃ command ∈ commands, line = "\t" ++ command.text := by
  induction commands generalizing previous with
  | nil => cases member
  | cons command rest ih =>
    have later (member : line ∈ ("\t" ++ command.text)
        :: commandLines (some command.key.family) rest) :
        line = "" ∨ ∃ other ∈ command :: rest, line = "\t" ++ other.text := by
      rcases List.mem_cons.mp member with own | member
      · exact .inr ⟨command, List.mem_cons_self, own⟩
      · exact (ih member).imp_right fun ⟨other, present, same⟩ =>
          ⟨other, List.mem_cons_of_mem _ present, same⟩
    simp only [commandLines] at member
    split at member
    · exact later member
    · rcases List.mem_cons.mp member with empty | member
      · exact .inl empty
      · exact later member

/-- The lines of a module but for the closing one. -/
def Module.body (part : Module α) : List String :=
  ("module " ++ part.name) :: (part.declarations.map (fun declaration => "\t" ++ declaration.text)
    ++ commandLines none part.commands)

/-- The commands of a module are in the lines that begin like commands. -/
theorem Module.filter_opensCommand {part : Module α} (legible : part.Legible) :
    part.body.filter opensCommand = part.commands.map fun command => "\t" ++ command.text := by
  have opening : opensCommand ("module " ++ part.name) = false := by
    simp [opensCommand, List.isPrefixOf]
  rw [Module.body, List.filter_cons_of_neg (by simp [opening]), List.filter_append,
    filter_commandLines, List.filter_eq_nil_iff.mpr, List.nil_append]
  intro line member
  obtain ⟨declaration, present, rfl⟩ := List.mem_map.mp member
  simp [opensCommand_declaration (legible.declarations declaration present)]

/-- The declarations of a module are in the lines that begin like declarations. -/
theorem Module.filter_opensDeclaration {part : Module α} (legible : part.Legible) :
    part.body.filter opensDeclaration
      = part.declarations.map fun declaration => "\t" ++ declaration.text := by
  have opening : opensDeclaration ("module " ++ part.name) = false := by simp [opensDeclaration]
  rw [Module.body, List.filter_cons_of_neg (by simp [opening]), List.filter_append,
    List.filter_eq_self.mpr, List.filter_eq_nil_iff.mpr, List.append_nil]
  · intro line member
    rcases mem_commandLines member with rfl | ⟨command, present, rfl⟩
    · decide
    · simp [opensDeclaration, opensCommand_command]
  · intro line member
    obtain ⟨declaration, present, rfl⟩ := List.mem_map.mp member
    simp [opensDeclaration, opensCommand_declaration (legible.declarations declaration present)]

/-- The closing line comes after the others. -/
theorem Module.lines_eq (part : Module α) : part.lines = part.body ++ ["endmodule"] := rfl

/-- A line of a module opens it, or is the line of a declaration or of a command, or is
empty. -/
theorem Module.mem_body {part : Module α} {line : String} (member : line ∈ part.body) :
    line = "module " ++ part.name
      ∨ (∃ declaration ∈ part.declarations, line = "\t" ++ declaration.text)
      ∨ line = "" ∨ ∃ command ∈ part.commands, line = "\t" ++ command.text := by
  rcases List.mem_cons.mp member with opening | member
  · exact .inl opening
  rcases List.mem_append.mp member with declared | commanded
  · obtain ⟨declaration, present, same⟩ := List.mem_map.mp declared
    exact .inr (.inl ⟨declaration, present, same.symm⟩)
  · exact .inr (.inr (mem_commandLines commanded))

/-- No other line of a module is the closing one. -/
theorem Module.closing_not_mem (part : Module α) : "endmodule" ∉ "" :: part.body := by
  intro member
  rcases List.mem_cons.mp member with empty | member
  · exact absurd empty (by decide)
  have otherwise {line : String} (same : "endmodule" = line) : line.toList.head? = some 'e' := by
    rw [← same]
    rfl
  rcases Module.mem_body member with opening | ⟨_, _, indented⟩ | empty | ⟨_, _, indented⟩
  · simpa using otherwise opening
  · simpa using otherwise indented
  · simpa using otherwise empty
  · simpa using otherwise indented

variable [Readable α]

/-- A module is read back from its lines. -/
theorem Module.alike_of_body_eq {first second : Module α} (legible : first.Legible)
    (legible' : second.Legible) (same : first.body = second.body) : first.Alike second := by
  have declarationTexts := Module.filter_opensDeclaration legible'
  rw [← same, Module.filter_opensDeclaration legible] at declarationTexts
  have commandTexts := Module.filter_opensCommand legible'
  rw [← same, Module.filter_opensCommand legible] at commandTexts
  have readDeclarations := Text.forall₂_of_map_eq declarationTexts
    fun declaration present other present' same => Declaration.text_injective
      (legible.declarations declaration present) (legible'.declarations other present')
      ((String.append_right_inj _).mp same)
  rw [List.forall₂_eq_eq_eq] at readDeclarations
  exact {
    name := (String.append_right_inj _).mp (List.cons.inj same).1
    declarations := readDeclarations
    commands := Text.forall₂_of_map_eq commandTexts
      fun command present other present' same => Command.alike_of_text_eq
        (legible.commands command present) (legible'.commands other present')
        ((String.append_right_inj _).mp same) }

/-- Modules are read back from their lines, one closing line after another. -/
theorem Module.alike_of_lines_eq {first second : List (Module α)}
    (legible : ∀ part ∈ first, part.Legible) (legible' : ∀ part ∈ second, part.Legible)
    (same : (first.flatMap fun part => "" :: part.lines)
      = second.flatMap fun part => "" :: part.lines) : List.Forall₂ Module.Alike first second := by
  have block (part : Module α) (rest : List String) : "" :: part.lines ++ rest
      = ("" :: part.body) ++ "endmodule" :: rest := by
    simp [Module.lines_eq]
  induction first generalizing second with
  | nil =>
    cases second with
    | nil => exact .nil
    | cons part rest => simp at same
  | cons part rest ih =>
    cases second with
    | nil => simp at same
    | cons other others =>
      rw [List.flatMap_cons, List.flatMap_cons, block, block] at same
      obtain ⟨bodies, later⟩ := Text.cut_unique part.closing_not_mem other.closing_not_mem same
      obtain ⟨legibleFirst, legibleRest⟩ := List.forall_mem_cons.mp legible
      obtain ⟨legibleOther, legibleOthers⟩ := List.forall_mem_cons.mp legible'
      exact .cons (Module.alike_of_body_eq legibleFirst legibleOther (List.cons.inj bodies).2)
        (ih legibleRest legibleOthers later)

/-- No line of a model has a line feed. -/
theorem Model.not_mem_lines {model : Model α} (legible : model.Legible) :
    ∀ line ∈ model.lines, '\n' ∉ line.toList := by
  intro line member
  rcases List.mem_cons.mp member with rfl | member
  · cases model.kind
    decide
  obtain ⟨part, present, member⟩ := List.mem_flatMap.mp member
  have legible := legible part present
  rcases List.mem_cons.mp member with rfl | member
  · decide
  rw [Module.lines_eq, List.mem_append] at member
  rcases member with inside | closing
  · rcases Module.mem_body inside with rfl | ⟨declaration, present, rfl⟩ | rfl
      | ⟨command, present, rfl⟩
    · have inName : '\n' ∉ part.name.toList := legible.name.not_mem (by decide)
      simp [inName]
    · simp [Declaration.not_mem_text (legible.declarations declaration present)]
    · decide
    · simp [Command.not_mem_text (legible.commands command present)]
  · obtain rfl := List.mem_singleton.mp closing
    decide

/-- A model is read back from its text, but for what shows only in empty lines or not at
all. -/
theorem Model.alike_of_text_eq {first second : Model α} (legible : first.Legible)
    (legible' : second.Legible) (same : first.text = second.text) : first.Alike second := by
  have joined : "\n".intercalate first.lines = "\n".intercalate second.lines :=
    (String.append_left_inj _).mp same
  have lines := Text.joined_injective [] '\n' [] rfl
    (by decide) (by simp [Model.lines]) (by simp [Model.lines]) (Model.not_mem_lines legible)
    (Model.not_mem_lines legible') joined
  exact {
    kind := by
      cases first.kind
      cases second.kind
      rfl
    modules := Module.alike_of_lines_eq legible legible' (List.cons.inj lines).2 }

end Modules

end Nonlocal
