import TemplateTree.Proofs.FilterBlocks
import TemplateTree.Proofs.Keeping
import TemplateTree.Proofs.Registries
import TemplateTree.Proofs.Remainders

/-!
# Records on one line

No message of a log goes on over more than one line, whatever a request asks for. Names are written
with escapes. What is quoted from a template comes from a line of its source, and no line has a
return in it, nor have lines that are joined. The other parts of messages are fixed texts and
numbers.
-/

set_option autoImplicit false

namespace TemplateTree

/-- A text without a carriage return or a line feed. -/
def Text.NoReturns (cs : List Char) : Prop := ∀ c ∈ cs, Line.isReturn c = false

instance (cs : List Char) : Decidable (Text.NoReturns cs) :=
  List.decidableBAll (fun c => Text.Line.isReturn c = false) cs

/-- A message that stays on its line of a log. -/
def SingleLine (s : String) : Prop := Text.NoReturns s.toList

instance (s : String) : Decidable (SingleLine s) :=
  inferInstanceAs (Decidable (Text.NoReturns s.toList))

/-! ## Texts of messages -/

section Texts
variable {s t : String} {cs : List Char}

theorem singleLine_ofList (h : Text.NoReturns cs) : SingleLine (String.ofList cs) := by
  unfold SingleLine
  rwa [String.toList_ofList]

theorem SingleLine.append (hs : SingleLine s) (ht : SingleLine t) : SingleLine (s ++ t) := by
  unfold SingleLine
  rw [String.toList_append]
  exact List.forall_mem_append.mpr ⟨hs, ht⟩

theorem SingleLine.intercalate {texts : List String} (hs : SingleLine s)
    (h : ∀ t ∈ texts, SingleLine t) : SingleLine (s.intercalate texts) := by
  unfold SingleLine
  rw [String.toList_intercalate]
  induction texts with
  | nil => exact List.forall_mem_nil _
  | cons t texts ih =>
    obtain ⟨ht, hlater⟩ := List.forall_mem_cons.mp h
    cases texts with
    | nil =>
      rw [List.map_cons, List.map_nil, List.intercalate_singleton]
      exact ht
    | cons u texts =>
      rw [List.map_cons, List.map_cons, List.intercalate_cons_cons, ← List.map_cons]
      exact List.forall_mem_append.mpr ⟨List.forall_mem_append.mpr ⟨ht, hs⟩, ih hlater⟩

theorem singleLine_char {c : Char} (h : Text.Line.isReturn c = false) : SingleLine c.toString :=
  singleLine_ofList (List.forall_mem_singleton.mpr h)

theorem singleLine_nat (n : Nat) : SingleLine (toString n) :=
  singleLine_ofList fun _ hc => Text.isReturn_of_class (p := Char.isDigit) rfl rfl
    (Nat.isDigit_of_mem_toDigits (by decide) (by decide) hc)

theorem singleLine_int : ∀ i : Int, SingleLine (toString i)
  | .ofNat n => singleLine_nat n
  | .negSucc n => .append (s := "-") (by decide) (singleLine_nat (n + 1))

theorem singleLine_onOneLine (s : String) : SingleLine (onOneLine s) := by
  refine singleLine_ofList fun c hc => ?_
  obtain ⟨d, -, hd⟩ := List.mem_flatMap.mp hc
  have hlf : Text.NoReturns ['\\', 'n'] := by decide
  have hcr : Text.NoReturns ['\\', 'r'] := by decide
  split_ifs at hd with hfeed hreturn
  · exact hlf c hd
  · exact hcr c hd
  · obtain rfl := List.mem_singleton.mp hd
    rw [beq_iff_eq] at hfeed hreturn
    exact Text.isReturn_eq_false_iff.mpr ⟨hreturn, hfeed⟩

end Texts

namespace Text

theorem isReturn_hexDigit : ∀ n < 16, Line.isReturn (hexDigit n) = false := by decide

theorem noReturns_hexDigits (width n : Nat) : NoReturns (hexDigits width n) := by
  induction width generalizing n with
  | zero => exact List.forall_mem_nil _
  | succ width ih =>
    have hdigit := isReturn_hexDigit (n % 16) (Nat.mod_lt _ (by decide))
    exact List.forall_mem_append.mpr ⟨ih _, List.forall_mem_singleton.mpr hdigit⟩

/-- A character of a literal is visible, or written with visible ones. -/
theorem noReturns_literalChar {quote : Char} (hquote : Line.isReturn quote = false) (c : Char) :
    NoReturns (literalChar quote c) := by
  have pair {c d : Char} (hc : Line.isReturn c = false) (hd : Line.isReturn d = false) :
      NoReturns [c, d] := List.forall_mem_cons.mpr ⟨hc, List.forall_mem_singleton.mpr hd⟩
  have escape {c : Char} (hc : Line.isReturn c = false) (width n : Nat) :
      NoReturns ('\\' :: c :: hexDigits width n) :=
    List.forall_mem_cons.mpr ⟨rfl, List.forall_mem_cons.mpr ⟨hc, noReturns_hexDigits width n⟩⟩
  unfold literalChar
  split_ifs with hquoted _ _ _ hprintable
  · rcases Bool.or_eq_true_iff.mp hquoted with h | h
    · exact pair rfl (by rwa [beq_iff_eq.mp h])
    · exact pair rfl (by rw [beq_iff_eq.mp h]; rfl)
  · exact pair rfl rfl
  · exact pair rfl rfl
  · exact pair rfl rfl
  · exact List.forall_mem_singleton.mpr (isReturn_of_class rfl rfl hprintable)
  · exact escape rfl _ _
  · exact escape rfl _ _
  · exact escape rfl _ _

theorem isReturn_literalQuote (cs : List Char) : Line.isReturn (literalQuote cs) = false := by
  unfold literalQuote
  split <;> rfl

end Text

theorem singleLine_literal (s : Str) : SingleLine s.literal := by
  have hquote := Text.isReturn_literalQuote (s.points.filterMap CodePoint.char?)
  have hpoint (p : CodePoint) : Text.NoReturns (p.literal
      (Text.literalQuote (s.points.filterMap CodePoint.char?))) := by
    cases p with
    | char c => exact Text.noReturns_literalChar hquote c
    | half n =>
      exact List.forall_mem_cons.mpr
        ⟨rfl, List.forall_mem_cons.mpr ⟨rfl, Text.noReturns_hexDigits 4 n⟩⟩
  refine singleLine_ofList (List.forall_mem_append.mpr
    ⟨List.forall_mem_cons.mpr ⟨hquote, fun c hc => ?_⟩, List.forall_mem_singleton.mpr hquote⟩)
  obtain ⟨p, -, hp⟩ := List.mem_flatMap.mp hc
  exact hpoint p c hp

theorem singleLine_literalNames (names : List Str) : SingleLine (Value.literalNames names) := by
  have hnames : SingleLine (", ".intercalate (names.map Str.literal)) := by
    refine .intercalate (by decide) fun t ht => ?_
    obtain ⟨s, -, rfl⟩ := List.mem_map.mp ht
    exact singleLine_literal s
  exact (SingleLine.append (s := "[") (by decide) hnames).append (by decide)

namespace SyntaxError

theorem singleLine_describeIndent (c : Char) : SingleLine (describeIndent c) := by
  unfold describeIndent
  split <;> decide

end SyntaxError

theorem Expected.Closes.singleLine {what : Expected} (h : what.Closes) : SingleLine what.text := by
  cases what with
  | moreAttributes closer =>
    obtain rfl | rfl : closer = '}' ∨ closer = ')' := h
    · decide
    · decide
  | _ => decide

/-- An indentation is refused with a fixed text, names of indentations and numbers. -/
theorem Indent.singleLine_of_check {t : Indent} {indent : List Char} {atStart : Bool}
    {cause : SyntaxError.Cause} (h : (t.check indent atStart).1 = .error cause) :
    SingleLine cause.message := by
  have hlevel {unit : IndentUnit} {current length : Nat} {char : Char}
      (h : levelIn unit current char length = .error cause) : SingleLine cause.message := by
    unfold levelIn at h
    split_ifs at h
    · obtain rfl := Except.error.inj h
      exact (((SingleLine.append (by decide) (SyntaxError.singleLine_describeIndent _)).append
        (by decide)).append (by decide)).append (SyntaxError.singleLine_describeIndent _)
    · obtain rfl := Except.error.inj h
      exact ((SingleLine.append (by decide) (singleLine_nat _)).append (by decide)).append
        (singleLine_nat _)
    · obtain rfl := Except.error.inj h
      decide
  unfold check at h
  cases indent with
  | nil => cases h
  | cons char others =>
    dsimp only at h
    split_ifs at h
    · obtain rfl := Except.error.inj h
      decide
    · obtain rfl := Except.error.inj h
      decide
    · cases hunit : t.unit with
      | none =>
        rw [hunit] at h
        cases h
      | some unit =>
        rw [hunit] at h
        dsimp only at h
        split at h
        · rename_i hrefused
          obtain rfl := Except.error.inj h
          exact hlevel hrefused
        · cases h

/-! ## Lines of a source -/

theorem Text.mem_of_charAt? {text : List Char} {i : Int} {c : Char}
    (h : charAt? text i = .ok (some c)) : c ∈ text := by
  cases i with
  | ofNat n => exact List.mem_of_getElem? (Except.ok.inj h)
  | negSucc n =>
    rw [charAt?] at h
    split_ifs at h
    exact List.mem_of_getElem? (Except.ok.inj h)

/-- A cursor on lines without returns. -/
structure Cursor.NoReturns (c : Cursor) : Prop where
  lines : ∀ line ∈ c.lines, Text.NoReturns line.text
  line : Text.NoReturns c.line

namespace Cursor.NoReturns
variable {c : Cursor}

theorem start (source : List Char) (filename : String) (firstLine : Int) :
    (Cursor.start source filename firstLine).NoReturns :=
  ⟨Text.isReturn_ofSource source, List.forall_mem_nil _⟩

theorem nextLine (h : c.NoReturns) : c.nextLine.2.NoReturns := by
  unfold Cursor.nextLine
  split
  · rename_i line hline
    exact ⟨h.lines, h.lines line (List.mem_of_getElem? hline)⟩
  · exact ⟨h.lines, List.forall_mem_nil _⟩

theorem joined (h : c.NoReturns) : c.joined.NoReturns := by
  have htail : Text.NoReturns (Text.joinTail c.upcoming).1 := by
    intro ch hch
    obtain ⟨text, htext, hmem⟩ := Text.exists_of_mem_joinTail hch
    obtain ⟨line, hline, rfl⟩ := List.mem_map.mp htext
    exact h.lines line (List.mem_of_mem_drop hline) ch hmem
  unfold Cursor.joined
  split
  · refine ⟨h.lines, fun ch hch => ?_⟩
    rcases Text.mem_or_mem_of_mem_joinLines hch with hmem | hmem
    · exact h.line ch hmem
    · exact htail ch hmem
  · exact h

theorem rest (h : c.NoReturns) : Text.NoReturns c.rest := fun ch hch =>
  h.line ch (List.mem_of_mem_drop hch)

/-- What a filter is called stands on its line. -/
theorem filterName (h : c.NoReturns) {m : Match}
    (hm : Pattern.filterMarker c.inLine.rest = some m) : Text.NoReturns (m.groupText 0) := by
  have hrest : Text.NoReturns c.inLine.rest := rest ⟨h.lines, h.line⟩
  cases hcs : c.inLine.rest with
  | nil =>
    rw [hcs] at hm
    cases hm
  | cons d name =>
    rw [hcs] at hm hrest
    obtain ⟨-, hname⟩ := List.forall_mem_cons.mp hrest
    by_cases hd : d = ':'
    · subst hd
      have hlf : '\n' ∉ name := fun hmem => absurd (hname _ hmem) (by decide)
      rw [Production.filterMarker_eq hlf] at hm
      obtain rfl := Option.some.inj hm
      exact hname
    · have hnone : Pattern.filterMarker (d :: name) = none := by
        simp [Pattern.filterMarker, Pattern.sequence, Pattern.andThen, Pattern.char,
          Pattern.satisfy, hd]
      rw [hnone] at hm
      cases hm

end Cursor.NoReturns

/-! ## Reading a template -/

/-- Lines without returns, and records and refusals on one line. -/
def Invariant.singleLine : Invariant where
  cursor := Cursor.NoReturns
  record entry := SingleLine entry.message
  cause cause := SingleLine cause.message

instance : Invariant.singleLine.Kept where
  column _ h := ⟨h.lines, h.line⟩
  nextLine h := h.nextLine
  unexpected {c found what} h hfound hwhat := by
    cases found with
    | none => exact SingleLine.append (by decide) hwhat.singleLine
    | some ch =>
      have hch : SingleLine ch.toString := singleLine_char (h.line ch (Text.mem_of_charAt? hfound))
      exact ((SingleLine.append (by decide) hch).append (by decide)).append hwhat.singleLine
  checked h := Indent.singleLine_of_check h
  selfClosing := by
    change SingleLine "Illegal nesting: nesting within a self-closing tag is illegal"
    decide
  unitEstablished char width := ((SingleLine.append (by decide) (singleLine_nat width)).append
    (by decide)).append (SyntaxError.singleLine_describeIndent char)
  silentBlock _ lines := (SingleLine.append (by decide) (singleLine_nat lines)).append (by decide)
  filterBlock lines h hm := by
    have hname := singleLine_ofList fun ch hch => h.filterName hm ch (Text.mem_of_mem_trim hch)
    exact (((SingleLine.append (by decide) hname).append (by decide)).append
      (singleLine_nat lines)).append (by decide)
  speculationFailed line h := ((SingleLine.append (by decide) (singleLine_int line)).append
    (by decide)).append h

namespace Production

theorem keeps_joinMultiline : Keeps .singleLine joinMultiline := by
  intro r h
  unfold Ensures
  rw [run_joinMultiline]
  exact h.move h.cursor.joined

theorem keeps_nextEntry (g : Grammar) : Keeps .singleLine (nextEntry g) := by
  refine keeps_nextLine.bind fun entered => ?_
  cases entered with
  | false => exact .pure _
  | true => exact keeps_joinMultiline.bind fun _ => (keeps_entry g).bind fun _ => .pure _

/-- A statement may be refused with texts of the request in the message; they are not recorded. -/
theorem keeps_nextStatement (g : Grammar) :
    Keeps Invariant.singleLine.anyCause (nextStatement g) :=
  (keeps_nextEntry g).anyCause.bind? (.pure _) fun said =>
    (keeps_place said).bind fun _ => .pure _

theorem keeps_lines (g : Grammar) : Keeps Invariant.singleLine.anyCause (lines g) :=
  keeps_repeatWhile (fun _ => keeps_nextStatement g) ()

end Production

open Production in
theorem singleLine_of_mem_readTemplate {g : Grammar} {source filename : String} {firstLine : Int} :
    ∀ entry ∈ (readTemplate g source filename firstLine).2.log, SingleLine entry.message := by
  have hdialect : SingleLine g.dialect.name := by
    cases g.dialect
    · decide
    · decide
  have hparsing : SingleLine (LogRecord.parsing filename g.dialect.name).message :=
    ((SingleLine.append (by decide) (singleLine_onOneLine filename)).append (by decide)).append
      hdialect
  have hparsed (statements : Nat) : SingleLine (LogRecord.parsed filename statements).message :=
    (((SingleLine.append (by decide) (singleLine_onOneLine filename)).append (by decide)).append
      (singleLine_nat statements)).append (by decide)
  have hkeeps : Keeps Invariant.singleLine.anyCause (do
      record (.parsing filename g.dialect.name)
      lines g
      let root := (← get).outline.root
      record (.parsed filename root.children.length)
      return root) :=
    (keeps_record hparsing).bind fun _ => (keeps_lines g).bind fun _ =>
      keeps_get.bind fun _ => (keeps_record (hparsed _)).bind fun _ => .pure _
  have hstart := hkeeps (Reading.start g source filename firstLine
    (.root [] (some (.of firstLine 1 0)))) ⟨.start _ _ _, List.forall_mem_nil _⟩
  unfold Ensures at hstart
  unfold readTemplate
  split at hstart
  · rename_i heq
    rw [heq]
    exact hstart.log
  · rename_i heq
    rw [heq]
    exact hstart.1.log

/-! ## Requests -/

namespace Registry

/-- No plugins, and no dialects but those that are built in. -/
structure Builtin (r : Registry) : Prop where
  plugins : r.plugins = .ok []
  parsers : ∀ p ∈ r.parsers, p = ("haml", .haml) ∨ p = ("jade", .jade)

theorem builtin_fresh : (fresh (.ok [])).Builtin := ⟨rfl, List.forall_mem_nil _⟩

/-- A registry after some calls, which have written messages of one line. -/
structure Writes (r r' : Registry) : Prop where
  builtin : r'.Builtin
  log : ∃ records, r'.log = r.log ++ records ∧ ∀ entry ∈ records, SingleLine entry.message

variable {r r₁ r₂ : Registry} {name : String} {kind : ParserKind}

theorem Writes.refl (h : r.Builtin) : r.Writes r :=
  ⟨h, [], (List.append_nil _).symm, List.forall_mem_nil _⟩

theorem Writes.trans (h : r.Writes r₁) (h' : r₁.Writes r₂) : r.Writes r₂ := by
  obtain ⟨before, hbefore, hall⟩ := h.log
  obtain ⟨behind, hbehind, hall'⟩ := h'.log
  refine ⟨h'.builtin, before ++ behind, ?_, List.forall_mem_append.mpr ⟨hall, hall'⟩⟩
  rw [hbehind, hbefore, List.append_assoc]

theorem Writes.record (h : r.Builtin) {entry : LogRecord} (hentry : SingleLine entry.message) :
    r.Writes (r.record entry) :=
  ⟨⟨h.plugins, h.parsers⟩, [entry], rfl, List.forall_mem_singleton.mpr hentry⟩

theorem Writes.enterDefault (h : r.Builtin)
    (hp : (name, kind) = ("haml", .haml) ∨ (name, kind) = ("jade", .jade)) :
    r.Writes (r.enterDefault name kind) := by
  unfold Registry.enterDefault
  split
  · exact .refl h
  · rename_i hnone
    refine ⟨⟨h.plugins, ?_⟩, [], (List.append_nil _).symm, List.forall_mem_nil _⟩
    rw [put, if_neg hnone]
    exact List.forall_mem_append.mpr ⟨h.parsers, List.forall_mem_singleton.mpr hp⟩

/-- Without plugins, nothing is said when the dialects are entered. -/
theorem Writes.prepare (h : r.Builtin) : r.Writes r.prepare := by
  have hplugins : r.withDefaults.plugins = .ok [] := (withDefaults_plugins r).trans h.plugins
  have hhaml : Writes { r with ready := true }
      ({ r with ready := true }.enterDefault "haml" .haml) :=
    .enterDefault ⟨h.plugins, h.parsers⟩ (.inl rfl)
  have hjade : Writes ({ r with ready := true }.enterDefault "haml" .haml) r.withDefaults :=
    .enterDefault hhaml.builtin (.inr rfl)
  have hboth := hhaml.trans hjade
  unfold Registry.prepare
  split
  · exact .refl h
  · dsimp only
    split
    · rename_i reason herror
      cases hplugins.symm.trans herror
    · rename_i plugins hok
      obtain rfl := Except.ok.inj (hplugins.symm.trans hok)
      exact ⟨hboth.builtin, hboth.log⟩

theorem Builtin.known (h : r.Builtin) (hknown : r.known name = .ok kind) :
    (name, kind) = ("haml", .haml) ∨ (name, kind) = ("jade", .jade) := by
  unfold Registry.known at hknown
  split at hknown
  · rename_i found hfound
    obtain rfl := Except.ok.inj hknown
    obtain ⟨_, _, hsplit, -⟩ := List.lookup_eq_some_iff.mp hfound
    apply h.parsers
    rw [hsplit]
    exact List.mem_append_right _ List.mem_cons_self
  · cases hknown

/-- A call that writes messages of one line, also when it fails. -/
def Logs {α : Type} (p : RegistryM α) : Prop :=
  ∀ r : Registry, r.Builtin → r.Writes (p.run r).2

theorem Logs.bind {α β : Type} {p : RegistryM α} {f : α → RegistryM β} (hp : Logs p)
    (hf : ∀ a, Logs (f a)) : Logs (p >>= f) := by
  intro r h
  have hfirst := hp r h
  rw [run_bind]
  rcases hrun : p.run r with ⟨e | a, r'⟩
  · rw [hrun] at hfirst
    exact hfirst
  · rw [hrun] at hfirst
    exact hfirst.trans (hf a r' hfirst.builtin)

theorem logs_pure {α : Type} (a : α) : Logs (pure a) := fun _ h => .refl h

theorem logs_throw {α : Type} (e : RegistryError) : Logs (throw e : RegistryM α) :=
  fun _ h => .refl h

theorem logs_find (name : String) : Logs (find name) := by
  intro r h
  rw [run_find]
  exact .prepare h

theorem logs_create (name : String) (options : Option Options) : Logs (create name options) := by
  intro r h
  rw [run_create]
  have hprepare := Writes.prepare h
  cases hknown : r.prepare.known name with
  | error e => exact hprepare
  | ok kind =>
    refine hprepare.trans (.record hprepare.builtin ?_)
    obtain heq | heq := hprepare.builtin.known hknown
    · obtain ⟨rfl, rfl⟩ := Prod.mk.inj heq
      decide
    · obtain ⟨rfl, rfl⟩ := Prod.mk.inj heq
      decide

end Registry

namespace Request
open Registry

theorem logs_finalOptions (q : Request) (kind : ParserKind) : Logs (q.finalOptions kind) := by
  have hskipped (names : List Str) : Logs (modify (Registry.record (.skippedOptions names))) :=
    fun _ h => .record h (SingleLine.append (by decide) (singleLine_literalNames names))
  unfold finalOptions
  split
  · exact logs_pure _
  · split
    · exact logs_pure _
    · exact logs_throw _
  · generalize Options.ofKnown kind.optionsClass _ = known
    obtain ⟨skipped, e | o⟩ := known
    · dsimp only
      split
      · exact (hskipped skipped).bind fun _ => logs_throw _
      · exact logs_throw _
    · dsimp only
      split
      · exact (hskipped skipped).bind fun _ => logs_pure _
      · exact logs_pure _

theorem logs_request (q : Request) : Logs q.parser := by
  have hrest : Logs (do
      let kind ← find q.dialect
      create q.dialect (← q.finalOptions kind)) :=
    (logs_find _).bind fun kind => (logs_finalOptions q kind).bind fun options =>
      logs_create _ options
  unfold parser
  split
  · exact (logs_throw _).bind fun _ => hrest
  · exact hrest

/-- No message that is logged while a template is parsed has a carriage return or a line feed. -/
theorem singleLine_of_parse (q : Request) {r : Registry} (h : r.Builtin) :
    ∃ records, (q.parse r).2.log = r.log ++ records ∧
      ∀ entry ∈ records, ∀ c ∈ entry.message.toList, c ≠ '\r' ∧ c ≠ '\n' := by
  have hsingle {records : List LogRecord} (hall : ∀ entry ∈ records, SingleLine entry.message) :
      ∀ entry ∈ records, ∀ c ∈ entry.message.toList, c ≠ '\r' ∧ c ≠ '\n' :=
    fun entry hentry c hc => Text.isReturn_eq_false_iff.mp (hall entry hentry c hc)
  obtain ⟨records, hlog, hrecords⟩ := (logs_request q r h).log
  unfold parse
  rcases hrun : q.parser.run r with ⟨e | parser, r'⟩
  · rw [hrun] at hlog
    exact ⟨records, hlog, hsingle hrecords⟩
  · rw [hrun] at hlog
    refine ⟨records ++ (readTemplate parser.grammar q.source q.filename q.firstLine).2.log, ?_,
      hsingle (List.forall_mem_append.mpr ⟨hrecords, singleLine_of_mem_readTemplate⟩)⟩
    rw [← List.append_assoc, ← hlog]

/-- Returns in the name of the template, in the name of an option and at the ends of lines; a value
that is tried as a string, and a filter. -/
theorem singleLine_of_parse_returns :
    let q : Request := ⟨"%a\x7b\"\\x\" => b\x7d\r\n  :f\x0b\n    c", "a\nb", 1, "haml", none,
      [("d\re", .null)]⟩
    let messages := ["Skipping unknown parser options: ['d\\re']",
      "Creating HamlParser for dialect 'haml'", "Parsing a\\nb as haml",
      "Speculative parse failed on line 1: Unexpected '\\', expected string or #\x7b...\x7d",
      "Indent unit established: 2 spaces", "Filter :f spans 2 lines",
      "Parsed a\\nb: 1 top-level statements"]
    (q.parse (.fresh (.ok []))).2.log.map LogRecord.message = messages ∧
      ∀ message ∈ messages, ∀ c ∈ message.toList, c ≠ '\r' ∧ c ≠ '\n' := by
  intro q messages
  have hmessages : (q.parse (.fresh (.ok []))).2.log.map LogRecord.message = messages := by
    decide +kernel
  obtain ⟨records, hlog, hrecords⟩ := singleLine_of_parse q builtin_fresh
  refine ⟨hmessages, fun message hmem => ?_⟩
  rw [← hmessages, hlog] at hmem
  obtain ⟨entry, hentry, rfl⟩ := List.mem_map.mp hmem
  exact hrecords entry hentry

end Request

end TemplateTree
