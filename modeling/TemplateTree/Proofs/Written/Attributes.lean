import TemplateTree.Proofs.Words
import TemplateTree.Proofs.Written.Passing
import TemplateTree.Proofs.Written.Strings

/-!
# Attribute lists as they are written

A list of attributes is written between braces or round brackets, on one line or over several.
However it is written, it is read as the attributes that it was written with, up to its closing
bracket.
-/

set_option autoImplicit false

namespace TemplateTree

/-- An attribute as it is written: its name, and its value if it has one. -/
structure Attribute where
  name : List Char
  value : Option (List Char)
  deriving DecidableEq, Repr

/-- An attribute with a name that is a text and a value that is an expression. -/
def Node.attribute? : Node → Option Attribute
  | tagAttribute name none _ =>
    match name.piece? with
    | some (.text name) => some ⟨name, none⟩
    | _ => none
  | tagAttribute name (some value) _ =>
    match name.piece?, value.piece? with
    | some (.text name), some (.insert value) => some ⟨name, some value⟩
    | _, _ => none
  | _ => none

/-- What stands between two attributes: spaces, or the end of a line and the indentation of the next
one. -/
inductive Gap where
  | spaces (count : Nat)
  | line (ends indent : List Char)
  deriving DecidableEq, Repr

def Gap.chars : Gap → List Char
  | spaces count => List.replicate count ' '
  | line ends indent => ends ++ indent

/-- The brackets that a list of attributes is written between. -/
inductive Brackets where
  | braces
  | parens
  deriving DecidableEq, Repr

namespace Brackets

def opening : Brackets → Char
  | braces => '\x7b'
  | parens => '('

def closing : Brackets → Char
  | braces => '\x7d'
  | parens => ')'

def isName : Brackets → Char → Bool
  | braces => Text.isWord
  | parens => Text.isAttributeName

/-- What ends a value. -/
def delimiters : Brackets → List Char
  | braces => [',']
  | parens => [' ']

def write : Brackets → Attribute → List Char
  | braces, a => ':' :: (a.name ++ ' ' :: '=' :: '>' :: ' ' :: a.value.getD [])
  | parens, ⟨name, none⟩ => name
  | parens, ⟨name, some value⟩ => name ++ '=' :: value

def separate : Brackets → Gap → List Char
  | braces, gap => ',' :: gap.chars
  | parens, gap => gap.chars

/-- The rest of a list, after its first attribute. -/
def writeRest (b : Brackets) : List (Gap × Attribute) → List Char
  | [] => [b.closing]
  | (gap, a) :: more => b.separate gap ++ (b.write a ++ b.writeRest more)

def writeList (b : Brackets) (a : Attribute) (more : List (Gap × Attribute)) : List Char :=
  b.opening :: (b.write a ++ b.writeRest more)

/-- A value that is read as the expression it is, and not as a string or a symbol. -/
structure IsValue (b : Brackets) (value : List Char) : Prop where
  unbroken : Text.Unbroken value
  start : Text.Starts (fun c => Text.isBlank c = false ∧ c ≠ '"' ∧ c ≠ ':') value
  whole : Scan.expression b.delimiters value = some value.length

/-- An attribute that may stand between the brackets. In braces, every attribute has a value. -/
structure Fits (b : Brackets) (a : Attribute) : Prop where
  name_ne_nil : a.name ≠ []
  name : ∀ c ∈ a.name, b.isName c
  hasValue : b = braces → a.value.isSome
  value : ∀ value ∈ a.value, b.IsValue value

/-- What may separate an attribute from the next one. In round brackets a value goes on up to a
space, so after one the end of the line may leave nothing in it. -/
def Separates (b : Brackets) (a : Attribute) : Gap → Prop
  | .spaces count => b = parens → 0 < count
  | .line ends indent => Text.IsBreak ends ∧ (∀ c ∈ indent, Text.isIndent c) ∧
      (b = parens → a.value.isSome → Text.residue ends = [])

/-- A first attribute, and the others, each with what stands before it. -/
inductive Lists (b : Brackets) : Attribute → List (Gap × Attribute) → Prop where
  | last {a : Attribute} (fits : b.Fits a) : b.Lists a []
  | more {a next : Attribute} {gap : Gap} {others : List (Gap × Attribute)} (fits : b.Fits a)
      (separates : b.Separates a gap) (rest : b.Lists next others) :
      b.Lists a ((gap, next) :: others)

end Brackets

theorem Scan.interpolation_eq_none {cs : List Char} (h : Text.Starts (· ≠ '#') cs) :
    interpolation cs = none := by
  rw [Option.eq_none_iff_forall_not_mem]
  intro n hn
  obtain ⟨body, m, rfl, -⟩ := interpolation_eq_some_iff.mp hn
  exact h '#' rfl rfl

namespace Brackets.IsValue
open Text
variable {b : Brackets} {value : List Char} (h : b.IsValue value)
include h

theorem ne_nil : value ≠ [] := (Scan.expression_pos h.whole).2

theorem starts_not_blank (rest : List Char) : Starts (isBlank · = false) (value ++ rest) :=
  .append (h.start.imp fun _ hc => hc.1) h.ne_nil

open Production in
theorem passes {after : List Char} (hafter : Starts (Scan.Stops b.delimiters) (headLine after)) :
    Passes (attributeExpression b.delimiters) (value ++ after) after
      (·.piece? = some (.insert value)) := by
  have hliteral : literal? value = none := by
    have hstart := h.start
    unfold literal?
    split <;> simp_all
  have hscan := Scan.expression_append h.whole 0 hafter
  refine (passes_attributeExpression h.unbroken hscan hliteral).imp ?_
  rintro _ ⟨p, rfl⟩
  simp [Node.ofExpression, Node.piece?]

end Brackets.IsValue

namespace Brackets
open Text
variable {b : Brackets} {a : Attribute} {gap : Gap}

theorem Lists.fits {others : List (Gap × Attribute)} (h : b.Lists a others) : b.Fits a := by
  cases h with
  | last fits => exact fits
  | more fits => exact fits

/-- An attribute starts with a character that no gap, no bracket and no interpolation has. -/
theorem Fits.starts_write (h : b.Fits a) (rest : List Char) :
    Starts (isAttributeName ·) (b.write a ++ rest) := by
  cases b with
  | braces => exact starts_cons.mpr rfl
  | parens =>
    have hname : Starts (isAttributeName ·) a.name :=
      fun c hc => h.name c (List.mem_of_mem_head? hc)
    obtain ⟨name, _ | value⟩ := a
    · exact hname.append h.name_ne_nil
    · rw [write, List.append_assoc]
      exact hname.append h.name_ne_nil

open Production in
theorem Fits.passes_interpolation? (h : b.Fits a) (rest : List Char) :
    Passes interpolation? (b.write a ++ rest) (b.write a ++ rest) (· = none) := by
  have hstart : Starts (· ≠ '#') (b.write a ++ rest) :=
    (h.starts_write rest).imp fun c hc => ne_of_isAttributeName hc '#' rfl
  exact passes_interpolation?_none (Scan.interpolation_eq_none hstart.headLine)

theorem Fits.write_ne_nil (h : b.Fits a) (rest : List Char) : b.write a ++ rest ≠ [] := by
  cases b with
  | braces => exact List.cons_ne_nil _ _
  | parens =>
    obtain ⟨name, _ | value⟩ := a
    · exact List.append_ne_nil_of_left_ne_nil h.name_ne_nil _
    · exact List.append_ne_nil_of_left_ne_nil (List.append_ne_nil_of_left_ne_nil h.name_ne_nil _) _

theorem isBlank_of_mem_spaces (count : Nat) : ∀ c ∈ List.replicate count ' ', isBlank c := by
  intro c hc
  rw [List.eq_of_mem_replicate hc]
  rfl

theorem starts_not_break {rest : List Char} (h : Starts (isAttributeName ·) rest) :
    Starts (isLineBreak · = false) rest :=
  h.imp fun _ hc => not_isLineBreak_of_not_isBlank (not_isBlank_of_isAttributeName hc)

theorem starts_not_indent {rest : List Char} (h : Starts (isAttributeName ·) rest) :
    Starts (isIndent · = false) (headLine rest) :=
  (h.imp fun _ hc => not_isIndent_of_not_isBlank (not_isBlank_of_isAttributeName hc)).headLine

theorem starts_not_blank {rest : List Char} (h : Starts (isAttributeName ·) rest) :
    Starts (isBlank · = false) (headLine rest) :=
  (h.imp fun _ hc => not_isBlank_of_isAttributeName hc).headLine

theorem breaks_indent {ends indent rest : List Char} (hends : IsBreak ends)
    (hindent : ∀ c ∈ indent, isIndent c) (h : Starts (isAttributeName ·) rest) :
    Breaks ends (indent ++ rest) := by
  refine ⟨hends, ?_⟩
  cases indent with
  | nil => exact h.imp fun c hc => ne_of_isAttributeName hc '\n' rfl
  | cons c indent =>
    rw [List.cons_append, starts_cons]
    rintro rfl
    cases hindent '\n' List.mem_cons_self

theorem isBlank_of_mem_residue {ends : List Char} (h : IsBreak ends) :
    ∀ c ∈ residue ends, isBlank c := by
  intro c hc
  obtain ⟨dropped, heq, -⟩ := exists_dropRightWhile Line.isReturn ends
  have hmem : c ∈ ends := heq ▸ List.mem_append_left _ hc
  cases h with
  | crlf => exact List.all_eq_true.mp rfl c hc
  | char hbreak =>
    rw [List.mem_singleton.mp hmem]
    exact isBlank_of_isLineBreak hbreak

end Brackets

namespace Production
open Text Brackets
variable {a next : Attribute} {gap : Gap} {after : List Char}

/-- The name of an attribute in braces ends before the space that follows it. -/
theorem expression_symbol {name : List Char} (hname : ∀ c ∈ name, isWord c) (rest : List Char) :
    Scan.expression ['=', ','] (':' :: name ++ ' ' :: '=' :: rest) = some (1 + name.length) := by
  have hplain : ∀ c ∈ ':' :: name, Scan.IsPlain c ∧ c ∉ ['=', ','] := by
    intro c hc
    rcases List.mem_cons.mp hc with rfl | hc
    · exact ⟨⟨rfl, rfl, rfl, by decide⟩, by decide⟩
    · have hne := ne_of_isWord (hname c hc)
      exact ⟨isPlain_of_isWord (hname c hc), by simp [hne '=' rfl, hne ',' rfl]⟩
  have hspace : ' ' ∉ ':' :: name := by
    intro hmem
    rcases List.mem_cons.mp hmem with heq | hmem
    · cases heq
    · exact ne_of_isWord (hname ' ' hmem) ' ' rfl rfl
  have hstops : Starts (Scan.Stops ['=', ',']) ('=' :: rest) :=
    starts_cons.mpr ⟨rfl, rfl, .inr (by decide)⟩
  have hwhole := Scan.expression_of_plain (List.cons_ne_nil _ _) hspace hplain
  have hscan := Scan.expression_append hwhole 1 hstops
  rwa [List.length_cons, Nat.add_comm] at hscan

theorem passes_symbol {name : List Char} (hne : name ≠ []) (hname : ∀ c ∈ name, isWord c)
    (after : List Char) : Passes (attributeExpression ['=', ','])
      (':' :: name ++ ' ' :: '=' :: after) (' ' :: '=' :: after)
      (·.piece? = some (.text name)) := by
  have hafter : Starts (isWord · = false) (' ' :: '=' :: after) := starts_cons.mpr rfl
  have hscan := expression_symbol hname (headLine after)
  rw [← headLine_cons rfl, ← headLine_cons rfl] at hscan
  refine (passes_attributeExpression_symbol hne hname (.cons rfl (unbroken_of_isWord hname))
    hafter.headLine hscan).imp ?_
  rintro _ ⟨p, rfl⟩
  exact Node.piece?_ofText name p

theorem passes_hashEntry (h : braces.Fits a)
    (hafter : Starts (Scan.Stops braces.delimiters) (headLine after)) :
    Passes hashEntry (braces.write a ++ after) after (·.attribute? = some a) := by
  obtain ⟨name, _ | value⟩ := a
  · cases h.hasValue rfl
  have hvalue : braces.IsValue value := h.value value rfl
  have hsplit : braces.write ⟨name, some value⟩ ++ after =
      ':' :: name ++ ' ' :: '=' :: '>' :: ' ' :: (value ++ after) := by simp [write]
  unfold hashEntry
  refine Passes.bind (h.passes_interpolation? after) ?_
  rintro _ rfl
  rw [hsplit]
  refine Passes.bind (passes_symbol h.name_ne_nil h.name _) fun key hkey => ?_
  have hspace : Passes skipIndent ([' '] ++ '=' :: '>' :: ' ' :: (value ++ after))
      ('=' :: '>' :: ' ' :: (value ++ after)) fun _ => True :=
    passes_skipIndent (List.all_eq_true.mp rfl) (Starts.headLine (starts_cons.mpr rfl))
  have harrow : Passes (eat .hashArrow) (['=', '>', ' '] ++ (value ++ after)) (value ++ after)
      (· = true) := by
    have hblank : Starts (isBlank · = false) (headLine (value ++ after)) :=
      (hvalue.starts_not_blank after).headLine
    exact passes_eat (Pattern.Takes.andThen (Pattern.takes_word ['=', '>'] _)
      (Pattern.takes_many (by simp [isBlank]) hblank)) (by decide)
  refine Passes.bind hspace fun _ _ => ?_
  refine Passes.bind harrow ?_
  rintro _ rfl
  refine Passes.bind (hvalue.passes hafter) fun content hcontent => ?_
  refine Passes.pure ?_
  simp only [Node.attribute?, hkey, hcontent]

/-- One more node, which stands for an attribute. -/
def Adds (found : List Node) (a : Attribute) (found' : List Node) : Prop :=
  ∃ n, found' = found ++ [n] ∧ n.attribute? = some a

variable {found : List Node}

theorem passes_nextHashEntry_last (h : braces.Fits a) :
    Passes (nextHashEntry found) (braces.write a ++ '\x7d' :: after) after
      fun s => ∃ found', s = .done found' ∧ Adds found a found' := by
  have hstops : Starts (Scan.Stops braces.delimiters) ('\x7d' :: after) :=
    starts_cons.mpr ⟨rfl, rfl, .inl rfl⟩
  have hskip : Starts (isIndent · = false) ('\x7d' :: after) := starts_cons.mpr rfl
  have hclose : Passes (eat .hashClose) (['\x7d'] ++ after) after (· = true) :=
    passes_eat (Pattern.takes_char _ _) (by decide)
  unfold nextHashEntry
  refine Passes.bind (passes_hashEntry h hstops.headLine) fun n hn => ?_
  refine Passes.bind (passes_skipIndent_nothing hskip.headLine) fun _ _ => ?_
  refine Passes.bind hclose ?_
  rintro _ rfl
  exact Passes.pure ⟨_, rfl, n, rfl, hn⟩

/-- Past a comma and a gap there is the next attribute, on this line or on the next one. -/
theorem passes_hashGap {α : Type} {rest : List Char} (x : α) (hgap : braces.Separates a gap)
    (hstart : Starts (isAttributeName ·) rest) (hne : rest ≠ []) :
    Passes (do if !(← eat .hashSeparator) then expected .hashSeparator
               if (← cursor).isEnd then continueList '\x7d'
               return x) (',' :: (gap.chars ++ rest)) rest (· = x) := by
  cases gap with
  | spaces count =>
    have hseparator : Passes (eat .hashSeparator) (',' :: List.replicate count ' ' ++ rest) rest
        (· = true) :=
      passes_eat (Pattern.Takes.andThen (Pattern.takes_char ',' _)
        (Pattern.takes_many (isBlank_of_mem_spaces count) (starts_not_blank hstart)))
        (.cons rfl (unbroken_spaces count))
    refine Passes.bind hseparator ?_
    rintro _ rfl
    exact passes_stay '\x7d' x (headLine_ne_nil (starts_not_break hstart) hne)
  | line ends indent =>
    obtain ⟨hends, hindent, -⟩ := hgap
    have hbreaks := breaks_indent hends hindent hstart
    have hseparator : Passes (eat .hashSeparator) ([','] ++ (ends ++ (indent ++ rest)))
        ('\n' :: (indent ++ rest)) (· = true) :=
      passes_eat_residue (Pattern.Takes.andThen (Pattern.takes_char ',' _)
        (Pattern.takes_many (isBlank_of_mem_residue hends) starts_nil)) (by decide) hbreaks
    rw [Gap.chars, List.append_assoc]
    refine Passes.bind hseparator ?_
    rintro _ rfl
    exact passes_goOn '\x7d' x ⟨.char rfl, hbreaks.follows⟩ rfl hne hindent
      (starts_not_indent hstart)

theorem passes_nextHashEntry (h : braces.Fits a) (hgap : braces.Separates a gap)
    (hnext : braces.Fits next) : Passes (nextHashEntry found)
      (braces.write a ++ (braces.separate gap ++ (braces.write next ++ after)))
      (braces.write next ++ after)
      fun s => ∃ found', s = .yield found' ∧ Adds found a found' := by
  have hstart := hnext.starts_write after
  have hne := hnext.write_ne_nil after
  generalize braces.write next ++ after = rest at hstart hne
  have hstops : Starts (Scan.Stops braces.delimiters) (',' :: (gap.chars ++ rest)) :=
    starts_cons.mpr ⟨rfl, rfl, .inr (by decide)⟩
  have hskip : Starts (isIndent · = false) (',' :: (gap.chars ++ rest)) := starts_cons.mpr rfl
  have hopen : Pattern.hashClose (headLine (',' :: (gap.chars ++ rest))) = none := by
    rw [headLine_cons rfl]
    rfl
  unfold nextHashEntry
  refine Passes.bind (passes_hashEntry h hstops.headLine) fun n hn => ?_
  refine Passes.bind (passes_skipIndent_nothing hskip.headLine) fun _ _ => ?_
  refine Passes.bind (passes_eat_none hopen) ?_
  rintro _ rfl
  exact (passes_hashGap _ hgap hstart hne).imp fun s hs => ⟨_, hs, n, rfl, hn⟩

/-- What may follow an attribute in round brackets: something that neither its name nor its value
goes on with. -/
structure Follows (a : Attribute) (rest : List Char) : Prop where
  name : Starts (isAttributeName · = false) rest
  equals : Starts (· ≠ '=') (rest.dropWhile isBlank)
  value : a.value.isSome → Starts (Scan.Stops parens.delimiters) rest

theorem passes_htmlName {name rest : List Char} (hne : name ≠ [])
    (hname : ∀ c ∈ name, isAttributeName c) (hunbroken : Unbroken name)
    (hrest : Starts (isAttributeName · = false) (headLine rest)) :
    Passes (eat? .htmlName) (name ++ rest) rest (· = some (.plain name.length)) :=
  passes_eat? (Pattern.some1_append hne hname hrest) rfl hunbroken

theorem passes_htmlEntry (h : parens.Fits a) (hafter : Follows a (headLine after)) :
    Passes htmlEntry (parens.write a ++ after) after (·.attribute? = some a) := by
  have hunbroken : Unbroken a.name := fun c hc =>
    not_isLineBreak_of_not_isBlank (not_isBlank_of_isAttributeName (h.name c hc))
  unfold htmlEntry
  refine Passes.bind (h.passes_interpolation? after) ?_
  rintro _ rfl
  refine Passes.bind passes_cursor fun c hc => ?_
  rw [Cursor.inLine_eq hc.inside]
  obtain ⟨name, _ | value⟩ := a
  · have hequals : Pattern.htmlEquals (headLine after) = none :=
      Pattern.blanks_andThen_eq_none (Pattern.andThen_eq_none (Pattern.char_eq_none hafter.equals))
    have hrest : c.rest.take name.length = name := hc.take_rest hunbroken
    have htaken : Passes (eat? .htmlName) (name ++ after) after (· = some (.plain name.length)) :=
      passes_htmlName h.name_ne_nil h.name hunbroken hafter.name
    refine Passes.bind htaken ?_
    rintro _ rfl
    refine Passes.bind (passes_eat_none hequals) ?_
    rintro _ rfl
    refine Passes.pure ?_
    simp only [Node.attribute?, Match.plain, hrest, Node.piece?_ofText]
  · have hvalue : parens.IsValue value := h.value value rfl
    have hsplit : parens.write ⟨name, some value⟩ ++ after = name ++ '=' :: (value ++ after) := by
      simp [write]
    rw [hsplit] at hc ⊢
    have hends : Starts (isAttributeName · = false) ('=' :: (value ++ after)) := starts_cons.mpr rfl
    have hblanks : Pattern.blanks.Takes [] (['='] ++ headLine (value ++ after)) :=
      Pattern.takes_no_blanks (by exact starts_cons.mpr rfl)
    have hequals : Passes (eat .htmlEquals) (['='] ++ (value ++ after)) (value ++ after)
        (· = true) :=
      passes_eat (hblanks.andThen ((Pattern.takes_char '=' _).andThen
        (Pattern.takes_no_blanks (hvalue.starts_not_blank after).headLine))) (by decide)
    have hrest : c.rest.take name.length = name := hc.take_rest hunbroken
    refine Passes.bind (passes_htmlName h.name_ne_nil h.name hunbroken hends.headLine) ?_
    rintro _ rfl
    refine Passes.bind hequals ?_
    rintro _ rfl
    refine Passes.bind (hvalue.passes (hafter.value rfl)) fun content hcontent => ?_
    refine Passes.pure ?_
    simp only [Node.attribute?, Match.plain, hrest, Node.piece?_ofText, hcontent]

theorem follows_closing (a : Attribute) (rest : List Char) :
    Follows a (headLine (')' :: rest)) := by
  rw [headLine_cons rfl]
  exact ⟨starts_cons.mpr rfl, by exact starts_cons.mpr (by decide),
    fun _ => starts_cons.mpr ⟨rfl, rfl, .inl rfl⟩⟩

/-- Past the blanks of a gap there is the next attribute or the end of the line. -/
theorem starts_dropWhile_gap {rest : List Char} (hgap : parens.Separates a gap)
    (hrest : Starts (isAttributeName ·) rest) :
    Starts (isAttributeName ·) ((headLine (gap.chars ++ rest)).dropWhile isBlank) := by
  cases gap with
  | spaces count =>
    rw [Gap.chars, headLine_append (unbroken_spaces count),
      List.dropWhile_append_of_pos (isBlank_of_mem_spaces count),
      (starts_not_blank hrest).dropWhile_eq]
    exact hrest.headLine
  | line ends indent =>
    obtain ⟨hends, hindent, -⟩ := hgap
    rw [Gap.chars, List.append_assoc, headLine_break (breaks_indent hends hindent hrest),
      List.dropWhile_eq_nil_iff.mpr (isBlank_of_mem_residue hends)]
    exact starts_nil

theorem follows_gap {rest : List Char} (hgap : parens.Separates a gap)
    (hrest : Starts (isAttributeName ·) rest) : Follows a (headLine (gap.chars ++ rest)) := by
  have hequals := (starts_dropWhile_gap hgap hrest).imp fun c hc => ne_of_isAttributeName hc '=' rfl
  cases gap with
  | spaces count =>
    obtain ⟨k, rfl⟩ := Nat.exists_eq_succ_of_ne_zero (Nat.pos_iff_ne_zero.mp (hgap rfl))
    have hname : Starts (isAttributeName · = false) (' ' :: (List.replicate k ' ' ++ rest)) :=
      starts_cons.mpr rfl
    have hvalue : Starts (Scan.Stops parens.delimiters) (' ' :: (List.replicate k ' ' ++ rest)) :=
      starts_cons.mpr ⟨rfl, rfl, .inr (by decide)⟩
    exact ⟨hname.headLine, hequals, fun _ => hvalue.headLine⟩
  | line ends indent =>
    obtain ⟨hends, hindent, hresidue⟩ := hgap
    have hline : headLine ((Gap.line ends indent).chars ++ rest) = residue ends := by
      rw [Gap.chars, List.append_assoc, headLine_break (breaks_indent hends hindent hrest)]
    refine ⟨?_, hequals, fun hvalue => ?_⟩
    · rw [hline]
      intro c hc
      have hblank := isBlank_of_mem_residue hends c (List.mem_of_mem_head? hc)
      rw [← Bool.not_eq_true]
      intro hname
      rw [not_isBlank_of_isAttributeName hname] at hblank
      cases hblank
    · rw [hline, hresidue rfl hvalue]
      exact starts_nil

theorem passes_nextHtmlEntry_last (h : parens.Fits a) :
    Passes (nextHtmlEntry found) (parens.write a ++ ')' :: after) after
      fun s => ∃ found', s = .done found' ∧ Adds found a found' := by
  have hblanks : Pattern.blanks.Takes [] ([')'] ++ headLine after) :=
    Pattern.takes_no_blanks (by exact starts_cons.mpr rfl)
  have hclose : Passes (eat .htmlClose) ([')'] ++ after) after (· = true) :=
    passes_eat (hblanks.andThen (Pattern.takes_char ')' _)) (by decide)
  unfold nextHtmlEntry
  refine Passes.bind (passes_htmlEntry h (follows_closing a after)) fun n hn => ?_
  refine Passes.bind hclose ?_
  rintro _ rfl
  exact Passes.pure ⟨_, rfl, n, rfl, hn⟩

/-- Past a gap there is the next attribute, on this line or on the next one. -/
theorem passes_htmlGap {α : Type} {rest : List Char} (x : α) (hgap : parens.Separates a gap)
    (hstart : Starts (isAttributeName ·) rest) (hne : rest ≠ []) :
    Passes (do let separated ← eat .htmlSeparator
               if !separated && !(← cursor).isEnd then expected .htmlSeparator
               if (← cursor).isEnd then continueList ')'
               return x) (gap.chars ++ rest) rest (· = x) := by
  cases gap with
  | spaces count =>
    have hspaces : List.replicate count ' ' ≠ [] :=
      List.ne_nil_of_length_pos (by rw [List.length_replicate]; exact hgap rfl)
    have hseparator : Passes (eat .htmlSeparator) (List.replicate count ' ' ++ rest) rest
        (· = true) :=
      passes_eat
        (Pattern.takes_some1 hspaces (isBlank_of_mem_spaces count) (starts_not_blank hstart))
        (unbroken_spaces count)
    refine Passes.bind hseparator ?_
    rintro _ rfl
    refine Passes.bind passes_cursor fun c hc => ?_
    exact passes_stay ')' x (headLine_ne_nil (starts_not_break hstart) hne)
  | line ends indent =>
    obtain ⟨hends, hindent, -⟩ := hgap
    have hbreaks := breaks_indent hends hindent hstart
    have hindented := starts_not_indent hstart
    rw [Gap.chars, List.append_assoc]
    by_cases hresidue : residue ends = []
    · have hline : headLine (ends ++ (indent ++ rest)) = [] :=
        (headLine_break hbreaks).trans hresidue
      have hseparator : Pattern.htmlSeparator (headLine (ends ++ (indent ++ rest))) = none := by
        rw [hline]
        rfl
      refine Passes.bind (passes_eat_none hseparator) ?_
      rintro _ rfl
      refine Passes.bind passes_cursor fun c hc => ?_
      have hend : c.isEnd = true := by rw [Cursor.isEnd_iff hc.inside, hc.rest, hline]
      rw [hend]
      exact passes_goOn ')' x hbreaks hresidue hne hindent hindented
    · -- what the end of the line leaves in it is a separator, and behind it the line ends
      have hseparator : Passes (eat .htmlSeparator) ([] ++ (ends ++ (indent ++ rest)))
          ('\n' :: (indent ++ rest)) (· = true) :=
        passes_eat_residue (Pattern.takes_some1 hresidue (isBlank_of_mem_residue hends) starts_nil)
          nofun hbreaks
      refine Passes.bind hseparator ?_
      rintro _ rfl
      refine Passes.bind passes_cursor fun c hc => ?_
      exact passes_goOn ')' x ⟨.char rfl, hbreaks.follows⟩ rfl hne hindent hindented

theorem passes_nextHtmlEntry (h : parens.Fits a) (hgap : parens.Separates a gap)
    (hnext : parens.Fits next) : Passes (nextHtmlEntry found)
      (parens.write a ++ (parens.separate gap ++ (parens.write next ++ after)))
      (parens.write next ++ after)
      fun s => ∃ found', s = .yield found' ∧ Adds found a found' := by
  have hstart := hnext.starts_write after
  have hne := hnext.write_ne_nil after
  generalize parens.write next ++ after = rest at hstart hne
  have hopen : Pattern.htmlClose (headLine (gap.chars ++ rest)) = none :=
    Pattern.blanks_andThen_eq_none (Pattern.char_eq_none
      ((starts_dropWhile_gap hgap hstart).imp fun c hc => ne_of_isAttributeName hc ')' rfl))
  unfold nextHtmlEntry
  refine Passes.bind (passes_htmlEntry h (follows_gap hgap hstart)) fun n hn => ?_
  refine Passes.bind (passes_eat_none hopen) ?_
  rintro _ rfl
  exact (passes_htmlGap _ hgap hstart hne).imp fun s hs => ⟨_, hs, n, rfl, hn⟩

/-- What reads the next attribute of a list. -/
def nextAttribute : Brackets → List Node → Production (ForInStep (List Node))
  | braces => nextHashEntry
  | parens => nextHtmlEntry

def attributeList : Brackets → Production (List Node)
  | braces => hashAttributes
  | parens => htmlAttributes

theorem passes_nextAttribute_last {b : Brackets} (h : b.Fits a) :
    Passes (nextAttribute b found) (b.write a ++ b.closing :: after) after
      fun s => ∃ found', s = .done found' ∧ Adds found a found' := by
  cases b with
  | braces => exact passes_nextHashEntry_last h
  | parens => exact passes_nextHtmlEntry_last h

theorem passes_nextAttribute {b : Brackets} (h : b.Fits a) (hgap : b.Separates a gap)
    (hnext : b.Fits next) : Passes (nextAttribute b found)
      (b.write a ++ (b.separate gap ++ (b.write next ++ after))) (b.write next ++ after)
      fun s => ∃ found', s = .yield found' ∧ Adds found a found' := by
  cases b with
  | braces => exact passes_nextHashEntry h hgap hnext
  | parens => exact passes_nextHtmlEntry h hgap hnext

theorem reads_nextAttribute {b : Brackets} {r : Reading} (h : r.cursor.Inside)
    (hfound : Node.AreAttributes true found) :
    Reads (nextAttribute b found) r
      (Repeats (fun as _ => Node.AreAttributes true as) (fun as _ => Node.AreAttributes true as)
        r) := by
  cases b with
  | braces => exact reads_nextHashEntry h hfound
  | parens => exact reads_nextHtmlEntry h hfound

/-- A list is read entry by entry, up to the bracket that closes it. -/
theorem passes_entries {b : Brackets} {more : List (Gap × Attribute)} (h : b.Lists a more)
    (after : List Char) (hfound : Node.AreAttributes true found) :
    Passes (repeatWhile (nextAttribute b) found) (b.write a ++ (b.writeRest more ++ after)) after
      fun ns => ∃ rest, ns = found ++ rest ∧
        rest.mapM Node.attribute? = some (a :: more.map Prod.snd) := by
  induction h generalizing found with
  | @last a fits =>
    refine Passes.done ((passes_nextAttribute_last fits).imp ?_)
    rintro _ ⟨_, rfl, n, rfl, hn⟩
    refine ⟨_, rfl, [n], rfl, ?_⟩
    simp [hn]
  | @more a next gap others fits separates rest ih =>
    have hsplit : b.writeRest ((gap, next) :: others) ++ after =
        b.separate gap ++ (b.write next ++ (b.writeRest others ++ after)) := by
      simp [writeRest]
    rw [hsplit]
    refine Passes.yield (fun r hr => reads_nextAttribute hr hfound)
      (passes_nextAttribute fits separates rest.fits) fun found' hfound' hsaid => ?_
    obtain ⟨n, rfl, hn⟩ := hsaid
    refine (ih hfound').imp ?_
    rintro _ ⟨ns, rfl, hns⟩
    refine ⟨n :: ns, by simp, ?_⟩
    simp [hn, hns]

theorem passes_attributeList {b : Brackets} {more : List (Gap × Attribute)} (h : b.Lists a more)
    (after : List Char) : Passes (attributeList b) (b.writeList a more ++ after) after
      fun ns => ns.mapM Node.attribute? = some (a :: more.map Prod.snd) := by
  have hsplit : b.writeList a more ++ after =
      [b.opening] ++ (b.write a ++ (b.writeRest more ++ after)) := by
    simp [writeList]
  have hblanks := starts_not_blank (h.fits.starts_write (b.writeRest more ++ after))
  have hopen : (Pattern.sequence [.char b.opening, .blanks]).Takes [b.opening]
      (headLine (b.write a ++ (b.writeRest more ++ after))) :=
    Pattern.Takes.andThen (Pattern.takes_char _ _) (Pattern.takes_no_blanks hblanks)
  have hentries := passes_entries h after Node.areAttributes_nil
  rw [hsplit]
  have hrest : Passes (repeatWhile (nextAttribute b) []) (b.write a ++ (b.writeRest more ++ after))
      after fun ns => ns.mapM Node.attribute? = some (a :: more.map Prod.snd) := by
    refine hentries.imp ?_
    rintro _ ⟨ns, rfl, hns⟩
    exact hns
  cases b with
  | braces =>
    refine Passes.bind (passes_eat hopen (by decide)) ?_
    rintro _ rfl
    exact hrest
  | parens =>
    refine Passes.bind (passes_eat hopen (by decide)) ?_
    rintro _ rfl
    exact hrest

theorem passes_shorthands {b : Brackets} (rest : List Char) :
    Passes shorthands (b.opening :: rest) (b.opening :: rest) (· = []) := by
  have hnone : Pattern.shorthand (headLine (b.opening :: rest)) = none := by
    cases b with
    | braces =>
      rw [opening, headLine_cons rfl]
      rfl
    | parens =>
      rw [opening, headLine_cons rfl]
      rfl
  refine Passes.done (Passes.bind passes_cursor fun c _ => ?_)
  refine Passes.bind (passes_eat?_none hnone) ?_
  rintro _ rfl
  exact Passes.pure ⟨[], rfl, rfl⟩

theorem attributeList?_opening (b : Brackets) :
    attributeList? b.opening = some (attributeList b) := by
  cases b <;> rfl

section Lists
variable {b : Brackets} {more : List (Gap × Attribute)} (h : b.Lists a more)
include h

theorem passes_nextAttributeList (after : List Char) :
    Passes (nextAttributeList ⟨[], []⟩) (b.writeList a more ++ after) after fun s =>
      ∃ s', s = .yield s' ∧ s'.found.mapM Node.attribute? = some (a :: more.map Prod.snd) := by
  have hbreak : isLineBreak b.opening = false := by cases b <;> rfl
  have hpeek : headLine (b.writeList a more ++ after) =
      b.opening :: headLine (b.write a ++ b.writeRest more ++ after) := headLine_cons hbreak
  refine Passes.bind passes_peekChar ?_
  rintro _ rfl
  rw [hpeek, List.head?_cons]
  dsimp only
  rw [attributeList?_opening]
  refine Passes.bind (passes_attributeList h after) fun ns hns => ?_
  exact Passes.pure ⟨_, rfl, hns⟩

omit h in
theorem passes_nextAttributeList_done {after : List Char}
    (hafter : Starts (· ∉ ['\x7b', '(', '[']) after) (s : Collected) :
    Passes (nextAttributeList s) after after (· = .done s) := by
  refine Passes.bind passes_peekChar ?_
  rintro _ rfl
  cases hhead : (headLine after).head? with
  | none => exact Passes.pure rfl
  | some c =>
    have hnone : attributeList? c = none := by
      have hc := hafter.headLine c hhead
      simp only [List.mem_cons, List.not_mem_nil, or_false, not_or] at hc
      simp [attributeList?, hc]
    dsimp only
    rw [hnone]
    exact Passes.pure rfl

theorem passes_tagAttributes {after : List Char} (hafter : Starts (· ∉ ['\x7b', '(', '[']) after) :
    Passes tagAttributes (b.writeList a more ++ after) after
      fun ns => ns.mapM Node.attribute? = some (a :: more.map Prod.snd) := by
  refine Passes.bind (passes_shorthands _) ?_
  rintro _ rfl
  have hlists : Passes (repeatWhile nextAttributeList ⟨[], []⟩) (b.writeList a more ++ after) after
      fun s => s.found.mapM Node.attribute? = some (a :: more.map Prod.snd) := by
    refine Passes.yield
      (fun r hr => reads_nextAttributeList (i := true) hr Node.areAttributes_nil)
      (passes_nextAttributeList h after) fun s _ hs => ?_
    refine Passes.done ((passes_nextAttributeList_done hafter s).imp ?_)
    rintro _ rfl
    exact ⟨s, rfl, hs⟩
  exact Passes.bind hlists fun s hs => Passes.pure hs

end Lists

/-- A list of attributes is read as the attributes that it was written with, up to the bracket that
closes it, unless another list follows. -/
theorem tagAttributes_writeList {b : Brackets} {more : List (Gap × Attribute)} {r : Reading}
    (h : b.Lists a more) (hafter : Starts (· ∉ ['\x7b', '(', '[']) after)
    (hr : r.cursor.StandsBefore (b.writeList a more ++ after)) :
    ∃ nodes r', tagAttributes.run r = (.ok nodes, r') ∧
      nodes.mapM Node.attribute? = some (a :: more.map Prod.snd) ∧
      r.Onward r' ∧ r'.cursor.StandsBefore after := by
  obtain ⟨nodes, r', hrun, hnodes, hr'⟩ := passes_tagAttributes h hafter r hr
  have honward := (reads_tagAttributes (i := true) hr.inside).of_run hrun
  exact ⟨nodes, r', hrun, hnodes, honward.1, hr'⟩

/-- A value with a space in brackets and a line that ends behind it, then a name without a value and
a vertical tab behind it. -/
theorem tagAttributes_writeList_lines : ∃ nodes r',
    tagAttributes.run (.onFirstLine "(a=f(' ', b)\r\n\tc\x0bd:e) x") = (.ok nodes, r') ∧
      nodes.mapM Node.attribute? = some [⟨"a".toList, some "f(' ', b)".toList⟩, ⟨"c".toList, none⟩,
        ⟨"d:e".toList, none⟩] ∧ r'.cursor.StandsBefore " x".toList := by
  have hvalue : parens.IsValue "f(' ', b)".toList :=
    ⟨by decide, starts_cons.mpr (by decide), by decide +kernel⟩
  have hlists : parens.Lists ⟨"a".toList, some "f(' ', b)".toList⟩
      [(.line "\r\n".toList "\t".toList, ⟨"c".toList, none⟩),
        (.line "\x0b".toList [], ⟨"d:e".toList, none⟩)] := by
    refine .more ⟨by decide, List.all_eq_true.mp rfl, nofun, ?_⟩
      ⟨.crlf, List.all_eq_true.mp rfl, fun _ _ => rfl⟩
      (.more ⟨by decide, List.all_eq_true.mp rfl, nofun, nofun⟩ ⟨.char rfl, nofun, nofun⟩
        (.last ⟨by decide, List.all_eq_true.mp rfl, nofun, nofun⟩))
    rintro _ ⟨⟩
    exact hvalue
  have hr : (Reading.onFirstLine "(a=f(' ', b)\r\n\tc\x0bd:e) x").cursor.StandsBefore
      (parens.writeList ⟨"a".toList, some "f(' ', b)".toList⟩
        [(.line "\r\n".toList "\t".toList, ⟨"c".toList, none⟩),
          (.line "\x0b".toList [], ⟨"d:e".toList, none⟩)] ++ " x".toList) :=
    Reading.standsBefore_onFirstLine (by decide)
  have hafter : Starts (· ∉ ['\x7b', '(', '[']) " x".toList := starts_cons.mpr (by decide)
  obtain ⟨nodes, r', hrun, hnodes, -, hr'⟩ := tagAttributes_writeList hlists hafter hr
  exact ⟨nodes, r', hrun, hnodes, hr'⟩

/-- Behind a value a vertical tab ends the line, but it belongs to the value too. -/
theorem tagAttributes_vertical_tab : parens.Fits ⟨"a".toList, some "b".toList⟩ ∧
    parens.Fits ⟨"c".toList, some "d".toList⟩ ∧ IsBreak "\x0b".toList ∧
    (Reading.onFirstLine "(a=b\x0bc=d)").cursor.StandsBefore
      (parens.writeList ⟨"a".toList, some "b".toList⟩
        [(.line "\x0b".toList [], ⟨"c".toList, some "d".toList⟩)] ++ []) ∧
    ((tagAttributes.run (.onFirstLine "(a=b\x0bc=d)")).1.toOption.bind fun nodes =>
      nodes.mapM Node.attribute?) =
        some [⟨"a".toList, some "b\x0b".toList⟩, ⟨"c".toList, some "d".toList⟩] := by
  refine ⟨⟨by decide, List.all_eq_true.mp rfl, nofun, ?_⟩,
    ⟨by decide, List.all_eq_true.mp rfl, nofun, ?_⟩, .char rfl,
    Reading.standsBefore_onFirstLine (by decide), by decide +kernel⟩
  · rintro _ ⟨⟩
    exact ⟨by decide, starts_cons.mpr (by decide), by decide +kernel⟩
  · rintro _ ⟨⟩
    exact ⟨by decide, starts_cons.mpr (by decide), by decide +kernel⟩

end Production

end TemplateTree
