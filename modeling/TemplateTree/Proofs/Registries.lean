import Mathlib.Data.List.Basic
import Mathlib.Data.String.Basic
import TemplateTree.Registry

/-!
# When entering the dialects late is seen

The built-in dialects and the plugins are entered at the first look-up. Here a registry that is used
at once is compared, call by call, with one where they were entered before the first call.
-/

set_option autoImplicit false

namespace TemplateTree

/-- The same error with the names in order: the text of an error lists them so. -/
def RegistryError.sorted : RegistryError → RegistryError
  | unknownDialect name available => unknownDialect name (available.mergeSort (· ≤ ·))
  | e => e

namespace Registry

/-- A call that changes what a name stands for. -/
inductive Edit where
  | register (name : String) (candidate : Candidate)
  | unregister (name : String)

/-- A call that asks for what is there. -/
inductive Query where
  | dialects
  | find (name : String)
  | create (name : String) (options : Option Options)
  deriving Inhabited

inductive Call where
  | edit (e : Edit)
  | query (q : Query)

/-- What a call gives back. -/
inductive Reply where
  | done
  | removed (known : Bool)
  | names (all : List String)
  | kind (k : ParserKind)
  | parser (p : Parser)

def Edit.run : Edit → RegistryM Reply
  | register name candidate => do
    Registry.register name candidate
    return .done
  | unregister name => return .removed (← Registry.unregister name)

def Query.run : Query → RegistryM Reply
  | dialects => return .names (← Registry.dialects)
  | find name => return .kind (← Registry.find name)
  | create name options => return .parser (← Registry.create name options)

namespace Call

def run : Call → RegistryM Reply
  | edit e => e.run
  | query q => q.run

def answer (c : Call) (r : Registry) : Except RegistryError Reply :=
  (c.run.run r).1.mapError .sorted

def after (c : Call) (r : Registry) : Registry := (c.run.run r).2

end Call

/-- What the calls answer, one after the other. A call that fails does not stop the next ones. -/
def answers : List Call → Registry → List (Except RegistryError Reply)
  | [], _ => []
  | c :: calls, r => c.answer r :: answers calls (c.after r)

/-- What an edit gives a name; an edit of another name or one that is refused gives it nothing. -/
def Edit.on (name : String) : Edit → Option (Option ParserKind)
  | register n (.parser kind) => if n = name then some (some kind) else none
  | register _ (.other _) => none
  | unregister n => if n = name then some none else none

/-- What the edits give a name, one after the other. -/
def history (name : String) (edits : List Edit) : List (Option ParserKind) :=
  edits.filterMap (Edit.on name)

/-- What a name stands for in the end, if it stood for `kind?` before. -/
def settled (kind? : Option ParserKind) (history : List (Option ParserKind)) : Option ParserKind :=
  history.getLast?.getD kind?

/-- Entering a plugin that loads is an edit. -/
def pluginEdits : Plugins → List Edit
  | .error _ => []
  | .ok plugins => plugins.filterMap fun p => p.loaded.toOption.map (.register p.name)

def builtin? (name : String) : Option ParserKind :=
  if name = "haml" then some .haml else if name = "jade" then some .jade else none

/-! ## What a name stands for -/

variable {r r' : Registry} {name n : String}

theorem lookup_map (parsers : List (String × ParserKind)) (kind : ParserKind) :
    (parsers.map fun (n, k) => (n, if n == name then kind else k)).lookup n =
      if n = name then (parsers.lookup n).map fun _ => kind else parsers.lookup n := by
  induction parsers with
  | nil => simp
  | cons p parsers ih =>
    obtain ⟨m, k⟩ := p
    rw [List.map_cons, List.lookup_cons, ih, List.lookup_cons]
    by_cases hm : n = m
    · subst hm
      by_cases hn : n = name <;> simp [hn]
    · rw [beq_false_of_ne hm]

theorem get?_put (r : Registry) (kind : ParserKind) :
    (r.put name kind).get? n = if n = name then some kind else r.get? n := by
  unfold put get?
  by_cases hs : (r.parsers.lookup name).isSome
  · rw [if_pos (by exact hs), lookup_map]
    by_cases hn : n = name
    · subst hn
      obtain ⟨k, hk⟩ := Option.isSome_iff_exists.mp hs
      simp [hk]
    · simp [hn]
  · rw [if_neg (by exact hs), List.lookup_append]
    by_cases hn : n = name
    · subst hn
      simp [Option.not_isSome_iff_eq_none.mp hs]
    · simp [hn, List.lookup_cons, beq_false_of_ne hn]

theorem lookup_filter (parsers : List (String × ParserKind)) :
    (parsers.filter (·.1 != name)).lookup n = if n = name then none else parsers.lookup n := by
  induction parsers with
  | nil => simp
  | cons p parsers ih =>
    obtain ⟨m, k⟩ := p
    by_cases hm : m = name
    · subst hm
      rw [List.filter_cons_of_neg (by simp), ih]
      by_cases hn : n = m
      · simp [hn]
      · simp [hn, List.lookup_cons, beq_false_of_ne hn]
    · rw [List.filter_cons_of_pos (by simpa using hm), List.lookup_cons, ih, List.lookup_cons]
      by_cases hn : n = m
      · simp [hn, hm]
      · rw [beq_false_of_ne hn]

theorem isSome_get?_iff (r : Registry) : (r.get? n).isSome ↔ n ∈ r.names := by
  rw [get?, List.lookup_isSome_iff, names, List.mem_map]
  constructor
  · rintro ⟨p, hp, hn⟩
    exact ⟨p, hp, by simpa using (beq_iff_eq.mp hn).symm⟩
  · rintro ⟨p, hp, rfl⟩
    exact ⟨p, hp, by simp⟩

/-- No name stands in the table twice. -/
def Unique (r : Registry) : Prop := r.names.Nodup

theorem Unique.put (h : r.Unique) (kind : ParserKind) : (r.put name kind).Unique := by
  unfold Unique names Registry.put
  by_cases hs : (r.get? name).isSome
  · rw [if_pos hs]
    simpa [Unique, names, Function.comp_def] using h
  · rw [if_neg hs, List.map_append, List.map_singleton, List.nodup_append]
    refine ⟨h, by simp, fun a ha b hb hab => ?_⟩
    rw [List.mem_singleton] at hb
    subst hab hb
    exact hs ((isSome_get?_iff r).mpr ha)

theorem Unique.filter (h : r.Unique) :
    Unique { r with parsers := r.parsers.filter (·.1 != name) } :=
  List.Nodup.sublist (List.filter_sublist.map _) h

/-! ## What an edit does -/

theorem run_bind {α β : Type} (m : RegistryM α) (f : α → RegistryM β) : (m >>= f).run r =
    match m.run r with
    | (.ok a, r') => (f a).run r'
    | (.error e, r') => (.error e, r') := by
  rw [ExceptT.run_bind]
  simp only [bind, StateT.bind]
  rcases ExceptT.run m r with ⟨_ | _, _⟩ <;> rfl

theorem run_get : (get : RegistryM Registry).run r = (.ok r, r) := rfl

theorem run_modify (f : Registry → Registry) :
    (modify f : RegistryM Unit).run r = (.ok (), f r) := rfl

/-- The registry without a name. -/
def remove (name : String) (r : Registry) : Registry :=
  { r with parsers := r.parsers.filter (·.1 != name) }.record (.unregistered name)

theorem run_unregister : (unregister name).run r =
    if (r.get? name).isSome then (.ok true, r.remove name) else (.ok false, r) := by
  change (if (r.get? name).isSome then
      (do set (r.remove name); return true : RegistryM Bool) else return false).run r = _
  split <;> rfl

theorem run_edit_unregister : (Edit.run (.unregister name)).run r =
    (.ok (.removed (r.get? name).isSome), if (r.get? name).isSome then r.remove name else r) := by
  rw [Edit.run, run_bind, run_unregister]
  cases (r.get? name).isSome <;> rfl

theorem answer_unregister :
    (Call.edit (.unregister name)).answer r = .ok (.removed (r.get? name).isSome) :=
  congrArg (fun a => a.1.mapError RegistryError.sorted) run_edit_unregister

theorem after_unregister :
    (Call.edit (.unregister name)).after r = if (r.get? name).isSome then r.remove name else r :=
  congrArg Prod.snd run_edit_unregister

theorem get?_after_unregister : ((Call.edit (.unregister name)).after r).get? n =
    if n = name then none else r.get? n := by
  rw [after_unregister]
  split
  · exact lookup_filter r.parsers
  · rename_i hs
    split
    · rename_i hn
      simpa [hn] using hs
    · rfl

/-- Edits keep whether the dialects have been entered, which plugins there are and that no name
stands in the table twice, and give each name what they say. -/
structure Edited (edits : List Edit) (r r' : Registry) : Prop where
  ready : r'.ready = r.ready
  plugins : r'.plugins = r.plugins
  unique : r.Unique → r'.Unique
  get? (name : String) : r'.get? name = settled (r.get? name) (history name edits)

theorem history_cons (name : String) (e : Edit) (edits : List Edit) :
    history name (e :: edits) = (e.on name).toList ++ history name edits := by
  unfold history
  cases h : e.on name <;> simp [h]

theorem history_singleton (name : String) (e : Edit) : history name [e] = (e.on name).toList :=
  (history_cons name e []).trans (List.append_nil _)

theorem history_append (name : String) (edits edits' : List Edit) :
    history name (edits ++ edits') = history name edits ++ history name edits' :=
  List.filterMap_append

theorem settled_append (kind? : Option ParserKind) (h h' : List (Option ParserKind)) :
    settled kind? (h ++ h') = settled (settled kind? h) h' := by
  cases hl : h'.getLast? <;> simp [settled, List.getLast?_append, hl]

theorem Edited.refl (r : Registry) : Edited [] r r := ⟨rfl, rfl, id, fun _ => rfl⟩

theorem Edited.trans {edits edits' : List Edit} {r r' r'' : Registry} (h : Edited edits r r')
    (h' : Edited edits' r' r'') : Edited (edits ++ edits') r r'' where
  ready := h'.ready.trans h.ready
  plugins := h'.plugins.trans h.plugins
  unique := h'.unique ∘ h.unique
  get? name := by
    rw [h'.get?, h.get?, history_append, settled_append]

theorem edited_enter (name : String) (kind : ParserKind) (r : Registry) :
    Edited [.register name (.parser kind)] r (r.enter name kind) := by
  refine ⟨rfl, rfl, fun h => h.put kind, fun n => (get?_put r kind).trans ?_⟩
  by_cases hn : n = name
  · simp [history_singleton, settled, Edit.on, hn]
  · simp [history_singleton, settled, Edit.on, hn, Ne.symm hn]

theorem edited_refused (name literal : String) (r : Registry) :
    Edited [.register name (.other literal)] r r := ⟨rfl, rfl, id, fun _ => rfl⟩

theorem edited_unregister (name : String) (r : Registry) :
    Edited [.unregister name] r ((Call.edit (.unregister name)).after r) := by
  have hr : (Call.edit (.unregister name)).after r =
      if (r.get? name).isSome then r.remove name else r := after_unregister
  refine ⟨by rw [hr]; split <;> rfl, by rw [hr]; split <;> rfl, fun h => ?_, fun n => ?_⟩
  · rw [hr]
    split
    · exact h.filter
    · exact h
  · rw [get?_after_unregister]
    by_cases hn : n = name
    · simp [history_singleton, settled, Edit.on, hn]
    · simp [history_singleton, settled, Edit.on, hn, Ne.symm hn]

theorem edited_after : ∀ (e : Edit) (r : Registry), Edited [e] r ((Call.edit e).after r)
  | .register name (.parser kind), r => edited_enter name kind r
  | .register name (.other literal), r => edited_refused name literal r
  | .unregister name, r => edited_unregister name r

/-- The registry after some calls. -/
def afterAll : List Call → Registry → Registry
  | [], r => r
  | c :: calls, r => afterAll calls (c.after r)

theorem edited_afterAll (edits : List Edit) (r : Registry) :
    Edited edits r (afterAll (edits.map .edit) r) := by
  induction edits generalizing r with
  | nil => exact .refl r
  | cons e edits ih => exact (edited_after e r).trans (ih _)

/-! ## Entering the dialects -/

theorem get?_enterDefault (r : Registry) (kind : ParserKind) :
    (r.enterDefault name kind).get? n =
      if n = name then some ((r.get? n).getD kind) else r.get? n := by
  unfold enterDefault
  split
  · rename_i hs
    obtain ⟨k, hk⟩ := Option.isSome_iff_exists.mp hs
    split
    · simp_all
    · rfl
  · rename_i hs
    rw [get?_put]
    split
    · simp_all
    · rfl

theorem Unique.enterDefault (h : r.Unique) (kind : ParserKind) :
    (r.enterDefault name kind).Unique := by
  unfold Registry.enterDefault
  split
  · exact h
  · exact h.put kind

/-- A registry with the built-in dialects and without the plugins. -/
def withDefaults (r : Registry) : Registry :=
  ({ r with ready := true }.enterDefault "haml" .haml).enterDefault "jade" .jade

theorem Unique.withDefaults (h : r.Unique) : r.withDefaults.Unique :=
  Unique.enterDefault (Unique.enterDefault (r := { r with ready := true }) h _) _

theorem get?_withDefaults (r : Registry) :
    r.withDefaults.get? name = (r.get? name).or (builtin? name) := by
  rw [withDefaults, get?_enterDefault, get?_enterDefault]
  change (if name = "jade" then some ((if name = "haml" then some ((r.get? name).getD .haml)
    else r.get? name).getD .jade) else if name = "haml" then some ((r.get? name).getD .haml)
    else r.get? name) = _
  unfold builtin?
  cases r.get? name <;> split_ifs <;> simp_all

theorem withDefaults_ready (r : Registry) : r.withDefaults.ready = true := by
  unfold withDefaults enterDefault
  split_ifs <;> rfl

theorem withDefaults_plugins (r : Registry) : r.withDefaults.plugins = r.plugins := by
  unfold withDefaults enterDefault
  split_ifs <;> rfl

theorem Edited.record {edits : List Edit} (h : Edited edits r r') (entry : LogRecord) :
    Edited edits r (r'.record entry) := ⟨h.ready, h.plugins, h.unique, h.get?⟩

theorem edited_enterPlugin (r : Registry) (p : Plugin) :
    Edited (p.loaded.toOption.map (.register p.name)).toList r (r.enterPlugin p) := by
  rcases p with ⟨name, package, _ | kind | literal⟩
  · exact (Edited.refl r).record _
  · exact (edited_enter name kind r).record _
  · exact (edited_refused name literal r).record _

theorem edited_foldl_enterPlugin (plugins : List Plugin) (r : Registry) :
    Edited (pluginEdits (.ok plugins)) r (plugins.foldl enterPlugin r) := by
  induction plugins generalizing r with
  | nil => exact .refl r
  | cons p plugins ih =>
    have h := (edited_enterPlugin r p).trans (ih (r.enterPlugin p))
    rw [List.foldl_cons]
    convert h using 1
    cases hp : p.loaded.toOption <;> simp [pluginEdits, hp]

theorem prepare_of_ready (h : r.ready = true) : r.prepare = r := if_pos h

theorem edited_prepare (h : r.ready = false) :
    Edited (pluginEdits r.plugins) r.withDefaults r.prepare := by
  have hp : r.prepare = match r.withDefaults.plugins with
      | .error reason => r.withDefaults.record (.noPlugins reason)
      | .ok plugins => plugins.foldl enterPlugin r.withDefaults := by
    unfold prepare
    rw [if_neg (by simp [h])]
    rfl
  rw [hp, withDefaults_plugins]
  cases r.plugins with
  | error reason => exact (Edited.refl _).record _
  | ok plugins => exact edited_foldl_enterPlugin plugins _

theorem prepare_ready (r : Registry) : r.prepare.ready = true := by
  cases h : r.ready with
  | true => rwa [prepare_of_ready h]
  | false => exact (edited_prepare h).ready.trans (withDefaults_ready r)

theorem Unique.prepare (h : r.Unique) : r.prepare.Unique := by
  cases hr : r.ready with
  | true => rwa [prepare_of_ready hr]
  | false => exact (edited_prepare hr).unique h.withDefaults

theorem get?_prepare (h : r.ready = false) : r.prepare.get? name =
    settled ((r.get? name).or (builtin? name)) (history name (pluginEdits r.plugins)) := by
  rw [(edited_prepare h).get?, get?_withDefaults]

/-! ## What a look-up answers -/

/-- What a name stands for, or the error that it is unknown. -/
def known (name : String) (r : Registry) : Except RegistryError ParserKind :=
  match r.get? name with
  | some kind => .ok kind
  | none => .error (.unknownDialect (onOneLine name) r.names)

/-- A parser of a kind with the given options or the default ones. -/
def made (kind : ParserKind) (options : Option Options) : Except RegistryError Parser :=
  match kind.dialect with
  | none => .error .noDialect
  | some d => (Grammar.make d options).map (⟨kind, ·⟩)

/-- What a look-up answers once the dialects have been entered. -/
def Query.eval : Query → Registry → Except RegistryError Reply
  | dialects, r => .ok (.names (r.names.mergeSort (· ≤ ·)))
  | find name, r => do
    return .kind (← r.known name)
  | create name options, r => do
    let kind ← r.known name
    return .parser (← made kind options)

theorem run_find (r : Registry) : (find name).run r = (r.prepare.known name, r.prepare) := by
  simp only [find, run_bind, run_modify, run_get, known]
  cases r.prepare.get? name <;> rfl

theorem run_create (options : Option Options) (r : Registry) : (create name options).run r =
    match r.prepare.known name with
    | .ok kind => (made kind options, r.prepare.record (.creating kind.name name))
    | .error e => (.error e, r.prepare) := by
  rw [create, run_bind, run_find]
  cases r.prepare.known name with
  | error e => rfl
  | ok kind =>
    simp only [run_bind, run_modify, made]
    cases kind.dialect with
    | none => rfl
    | some d => cases hg : Grammar.make d options <;> simp only [hg] <;> rfl

theorem run_query (q : Query) (r : Registry) :
    ∃ log, q.run.run r = (q.eval r.prepare, { r.prepare with log := log }) := by
  cases q with
  | dialects => exact ⟨_, rfl⟩
  | find name =>
    refine ⟨r.prepare.log, ?_⟩
    simp only [Query.run, run_bind, run_find, Query.eval]
    cases r.prepare.known name <;> rfl
  | create name options =>
    simp only [Query.run, run_bind, run_create, Query.eval]
    cases r.prepare.known name with
    | error e => exact ⟨_, rfl⟩
    | ok kind =>
      refine ⟨(r.prepare.record (.creating kind.name name)).log, ?_⟩
      cases h : made kind options <;> simp only [bind, Except.bind, h] <;> rfl

/-! ## Two registries that answer alike -/

/-- Two registries that are ready and where every name stands for the same. Their names may stand
in a different order. -/
structure Agree (r r' : Registry) : Prop where
  ready : r.ready = true
  ready' : r'.ready = true
  unique : r.Unique
  unique' : r'.Unique
  get? (name : String) : r.get? name = r'.get? name

namespace Agree

theorem perm (h : Agree r r') : r.names.Perm r'.names := by
  rw [List.perm_ext_iff_of_nodup h.unique h.unique']
  intro name
  rw [← isSome_get?_iff, ← isSome_get?_iff, h.get?]

theorem sorted_names (h : Agree r r') :
    r.names.mergeSort (· ≤ ·) = r'.names.mergeSort (· ≤ ·) := by
  have hs (l : List String) : (l.mergeSort (· ≤ ·)).Pairwise (· ≤ ·) := by
    have htrans (a b c : String) : decide (a ≤ b) → decide (b ≤ c) → decide (a ≤ c) := by
      simpa using le_trans
    have htotal (a b : String) : (decide (a ≤ b) || decide (b ≤ a)) = true := by
      simpa using le_total a b
    simpa using List.pairwise_mergeSort htrans htotal l
  exact List.Perm.eq_of_pairwise (fun _ _ _ _ => le_antisymm) (hs _) (hs _)
    (((List.mergeSort_perm ..).trans h.perm).trans (List.mergeSort_perm ..).symm)

/-- What is made of a name is the same; that it is unknown lists the same names. -/
theorem known_bind (h : Agree r r') (name : String) (f : ParserKind → Except RegistryError Reply) :
    (r.known name >>= f).mapError RegistryError.sorted =
      (r'.known name >>= f).mapError RegistryError.sorted := by
  unfold Registry.known
  rw [h.get?]
  cases r'.get? name with
  | some kind => rfl
  | none =>
    exact congrArg (fun l => Except.error (RegistryError.unknownDialect _ l)) h.sorted_names

theorem eval (h : Agree r r') : ∀ q : Query,
    (q.eval r).mapError RegistryError.sorted = (q.eval r').mapError RegistryError.sorted
  | .dialects => congrArg (fun l => Except.ok (Reply.names l)) h.sorted_names
  | .find name => h.known_bind name _
  | .create name _ => h.known_bind name _

theorem edited {edits : List Edit} {s s' : Registry} (h : Agree r r') (hs : Edited edits r s)
    (hs' : Edited edits r' s') : Agree s s' where
  ready := hs.ready.trans h.ready
  ready' := hs'.ready.trans h.ready'
  unique := hs.unique h.unique
  unique' := hs'.unique h.unique'
  get? name := by rw [hs.get?, hs'.get?, h.get?]

end Agree

theorem answer_register (candidate : Candidate) (r r' : Registry) :
    (Call.edit (.register name candidate)).answer r =
      (Call.edit (.register name candidate)).answer r' := by
  cases candidate <;> rfl

theorem ready_after_query (q : Query) (r : Registry) : ((Call.query q).after r).ready = true := by
  obtain ⟨log, h⟩ := run_query q r
  exact (congrArg (fun a => a.2.ready) h).trans (prepare_ready r)

theorem answer_query (q : Query) (r : Registry) :
    (Call.query q).answer r = (q.eval r.prepare).mapError .sorted := by
  obtain ⟨log, h⟩ := run_query q r
  exact congrArg (fun a => a.1.mapError RegistryError.sorted) h

theorem Agree.query (h : Agree r.prepare r'.prepare) (q : Query) :
    (Call.query q).answer r = (Call.query q).answer r' ∧
      Agree ((Call.query q).after r) ((Call.query q).after r') := by
  obtain ⟨log, hl⟩ := run_query q r
  obtain ⟨log', hl'⟩ := run_query q r'
  have ha : (Call.query q).after r = { r.prepare with log := log } := congrArg Prod.snd hl
  have ha' : (Call.query q).after r' = { r'.prepare with log := log' } := congrArg Prod.snd hl'
  constructor
  · rw [answer_query, answer_query, h.eval]
  · rw [ha, ha']
    exact ⟨h.ready, h.ready', h.unique, h.unique', h.get?⟩

theorem Agree.step (h : Agree r r') (c : Call) :
    c.answer r = c.answer r' ∧ Agree (c.after r) (c.after r') := by
  cases c with
  | edit e =>
    refine ⟨?_, h.edited (edited_after e r) (edited_after e r')⟩
    cases e with
    | register name candidate => exact answer_register candidate r r'
    | unregister name => rw [answer_unregister, answer_unregister, h.get?]
  | query q =>
    refine Agree.query ?_ q
    rwa [prepare_of_ready h.ready, prepare_of_ready h.ready']

theorem Agree.answers (h : Agree r r') (calls : List Call) :
    Registry.answers calls r = Registry.answers calls r' := by
  induction calls generalizing r r' with
  | nil => rfl
  | cons c calls ih =>
    obtain ⟨ha, hr⟩ := h.step c
    rw [Registry.answers, Registry.answers, ha, ih hr]

theorem answers_append (before calls : List Call) (r : Registry) :
    answers (before ++ calls) r = answers before r ++ answers calls (afterAll before r) := by
  induction before generalizing r with
  | nil => rfl
  | cons c before ih => simp [answers, afterAll, ih]

theorem length_answers (calls : List Call) (r : Registry) :
    (answers calls r).length = calls.length := by
  induction calls generalizing r with
  | nil => rfl
  | cons c calls ih => simp [answers, ih]

def Call.edit? : Call → Option Edit
  | edit e => some e
  | query _ => none

/-- In a registry that is ready a name stands for what the last edit of it said. -/
theorem get?_afterAll (h : r.ready = true) (calls : List Call) (name : String) :
    (afterAll calls r).get? name =
      settled (r.get? name) (history name (calls.filterMap Call.edit?)) := by
  induction calls generalizing r with
  | nil => rfl
  | cons c calls ih =>
    cases c with
    | edit e =>
      have he := edited_after e r
      rw [afterAll, ih (he.ready.trans h), he.get?, ← settled_append, ← history_append]
      rfl
    | query q =>
      obtain ⟨log, hl⟩ := run_query q r
      have ha : (Call.query q).after r = { r with log := log } := by
        rw [prepare_of_ready h] at hl
        exact congrArg Prod.snd hl
      rw [afterAll, ha]
      exact ih (r := { r with log := log }) h

/-! ## Edits before the first look-up -/

theorem answer_edit_eq_iff (e : Edit) (r r' : Registry) :
    (Call.edit e).answer r = (Call.edit e).answer r' ↔
      ∀ name, e.on name = some none → (r.get? name).isSome = (r'.get? name).isSome := by
  cases e with
  | register n candidate =>
    refine iff_of_true (answer_register candidate r r') fun name h => ?_
    cases candidate <;> simp [Edit.on] at h
  | unregister n => simp [answer_unregister, Edit.on]

/-- Edits answer the same in two registries unless the first edit of a name removes it from one of
them only. -/
theorem answers_edits_eq_iff (edits : List Edit) (r r' : Registry) :
    answers (edits.map .edit) r = answers (edits.map .edit) r' ↔
      ∀ name, (history name edits).head? = some none →
        (r.get? name).isSome = (r'.get? name).isSome := by
  induction edits generalizing r r' with
  | nil => simp [answers, history]
  | cons e edits ih =>
    rw [List.map_cons, answers, answers, List.cons.injEq, answer_edit_eq_iff, ih, ← forall_and]
    refine forall_congr' fun name => ?_
    rw [(edited_after e r).get?, (edited_after e r').get?, history_singleton,
      history_cons name e edits]
    rcases e.on name with _ | _ | kind <;> simp [settled]

/-- The name of a built-in dialect or of a plugin that is entered. -/
def Offered (plugins : Plugins) (name : String) : Prop :=
  ((fresh plugins).prepare.get? name).isSome

/-- The edits of a name leave it as if its dialect had been there before them: there are none, or
they end with a registration that no plugin replaces and do not begin with a removal. -/
def LeavesNoTrace (plugins : Plugins) (edits : List Edit) (name : String) : Prop :=
  history name edits ≠ [] →
    (history name edits).head? ≠ some none ∧
      ∃ kind, (history name edits).getLast? = some (some kind) ∧
        ∀ given ∈ (history name (pluginEdits plugins)).getLast?, given = some kind

theorem some_of_mem_pluginEdits {plugins : Plugins} {given : Option ParserKind}
    (h : given ∈ history name (pluginEdits plugins)) : ∃ kind, given = some kind := by
  obtain ⟨e, he, hg⟩ := List.mem_filterMap.mp h
  cases plugins with
  | error _ => cases he
  | ok plugins =>
    obtain ⟨p, _, hp⟩ := List.mem_filterMap.mp he
    obtain ⟨candidate, _, rfl⟩ := Option.map_eq_some_iff.mp hp
    cases candidate with
    | parser kind =>
      refine ⟨kind, ?_⟩
      simp only [Edit.on] at hg
      split at hg <;> simp_all
    | other _ => cases hg

theorem settled_of_getLast? {history : List (Option ParserKind)} {last : Option ParserKind}
    (h : history.getLast? = some last) (kind? : Option ParserKind) :
    settled kind? history = last := by
  simp [settled, h]

/-- The comparison for one name, to which the built-in dialects give `builtin`, the plugins `given`
and the edits `edited`. Entering the dialects late, the edits come first and only a plugin changes
what they gave; entering them early, the last edit counts. -/
theorem late_eq_early_iff (builtin : Option ParserKind) (edited given : List (Option ParserKind))
    (hg : ∀ g ∈ given, ∃ kind, g = some kind) :
    ((edited.head? = some none → (settled builtin given).isSome = false) ∧
        settled ((settled none edited).or builtin) given = settled (settled builtin given) edited) ↔
      ((settled builtin given).isSome → edited ≠ [] →
        edited.head? ≠ some none ∧ ∃ kind, edited.getLast? = some (some kind) ∧
          ∀ g ∈ given.getLast?, g = some kind) := by
  cases hl : edited.getLast? with
  | none =>
    rw [List.getLast?_eq_none_iff.mp hl]
    simp [settled]
  | some last =>
    have hne : edited ≠ [] := by
      rintro rfl
      cases hl
    -- early it stands for `last`, late for that unless `last` is a removal or a plugin replaces it
    rw [settled_of_getLast? hl, settled_of_getLast? hl]
    cases hgl : given.getLast? with
    | none =>
      have hs (kind? : Option ParserKind) : settled kind? given = kind? := by simp [settled, hgl]
      rw [hs, hs]
      cases builtin <;> cases last <;> simp [hne]
    | some g =>
      obtain ⟨kind, rfl⟩ := hg g (List.mem_of_getLast? hgl)
      rw [settled_of_getLast? hgl, settled_of_getLast? hgl]
      cases last <;> simp [hne]

theorem get?_eq_of_answer_find
    (h : (Call.query (.find name)).answer r = (Call.query (.find name)).answer r') :
    r.prepare.get? name = r'.prepare.get? name := by
  simp only [answer_query, Query.eval, known] at h
  cases hr : r.prepare.get? name <;> cases hr' : r'.prepare.get? name <;>
    simp_all [Except.mapError]

/-- Look-ups answer the same from now on if and only if every name stands for the same once the
dialects have been entered. -/
theorem answers_query_eq_iff (hu : r.Unique) (hu' : r'.Unique) :
    (∀ q calls, answers (.query q :: calls) r = answers (.query q :: calls) r') ↔
      ∀ name, r.prepare.get? name = r'.prepare.get? name := by
  constructor
  · intro h name
    exact get?_eq_of_answer_find (List.cons.inj (h (.find name) [])).1
  · intro h q calls
    have ha : Agree r.prepare r'.prepare :=
      ⟨prepare_ready r, prepare_ready r', hu.prepare, hu'.prepare, h⟩
    obtain ⟨hq, hs⟩ := ha.query q
    rw [answers, answers, hq, hs.answers]

theorem get?_early (plugins : Plugins) (name : String) : (fresh plugins).prepare.get? name =
    settled (builtin? name) (history name (pluginEdits plugins)) := by
  rw [get?_prepare rfl]
  rfl

theorem get?_late (plugins : Plugins) (edits : List Edit) (name : String) :
    (afterAll (edits.map .edit) (fresh plugins)).prepare.get? name =
      settled ((settled none (history name edits)).or (builtin? name))
        (history name (pluginEdits plugins)) := by
  have he := edited_afterAll edits (fresh plugins)
  rw [get?_prepare he.ready, he.get?, he.plugins]
  rfl

theorem fresh_unique (plugins : Plugins) : (fresh plugins).Unique := List.nodup_nil

theorem answers_fresh_edits_eq_iff (plugins : Plugins) (edits : List Edit) :
    answers (edits.map .edit) (fresh plugins) = answers (edits.map .edit) (fresh plugins).prepare ↔
      ∀ name, Offered plugins name → (history name edits).head? ≠ some none := by
  rw [answers_edits_eq_iff]
  refine forall_congr' fun name => ?_
  have hn : (fresh plugins).get? name = none := rfl
  rw [Offered, hn]
  cases (fresh plugins).prepare.get? name <;> simp

/-- Calls that follow one another in two registries answer the same if and only if those up to a
point do and those after it do. -/
theorem answers_append_eq_iff (before calls : List Call) (r r' : Registry) :
    answers (before ++ calls) r = answers (before ++ calls) r' ↔
      answers before r = answers before r' ∧
        answers calls (afterAll before r) = answers calls (afterAll before r') := by
  rw [answers_append, answers_append]
  constructor
  · exact fun h => List.append_inj h (by rw [length_answers, length_answers])
  · rintro ⟨h, hc⟩
    rw [h, hc]

/-- What is seen of the late entering of the dialects. Edits alone answer as if the dialects had
been entered before, unless one begins to edit an offered name by removing it. Edits and any calls
from the first look-up on answer so if and only if the edits leave no trace at any offered name.
After the first look-up a name stands for what the last edit of it says. -/
theorem answers_fresh_eq_iff (plugins : Plugins) (edits : List Edit) :
    (answers (edits.map .edit) (fresh plugins) =
        answers (edits.map .edit) (fresh plugins).prepare ↔
      ∀ name, Offered plugins name → (history name edits).head? ≠ some none) ∧
    ((∀ q calls, answers (edits.map .edit ++ .query q :: calls) (fresh plugins) =
        answers (edits.map .edit ++ .query q :: calls) (fresh plugins).prepare) ↔
      ∀ name, Offered plugins name → LeavesNoTrace plugins edits name) ∧
    ∀ q calls name,
      let used := (Call.query q).after (afterAll (edits.map .edit) (fresh plugins))
      (afterAll calls used).get? name =
        settled (used.get? name) (history name (calls.filterMap Call.edit?)) := by
  refine ⟨answers_fresh_edits_eq_iff plugins edits, ?_,
    fun q calls name => get?_afterAll (ready_after_query q _) calls name⟩
  have he := edited_afterAll edits (fresh plugins)
  have he' := edited_afterAll edits (fresh plugins).prepare
  simp only [answers_append_eq_iff, forall_and_left]
  rw [answers_edits_eq_iff, answers_query_eq_iff (he.unique (fresh_unique plugins))
    (he'.unique (fresh_unique plugins).prepare), ← forall_and]
  refine forall_congr' fun name => ?_
  rw [get?_late, prepare_of_ready (he'.ready.trans (prepare_ready _)), he'.get?, Offered,
    LeavesNoTrace, get?_early, ← late_eq_early_iff _ _ _ fun g hg => some_of_mem_pluginEdits hg]
  exact and_congr_left fun _ => imp_congr_right fun _ => eq_comm

/-- A removal before the first look-up is undone by the look-up. -/
theorem unregister_before_look_up :
    let calls : List Call := [.edit (.unregister "haml"), .query (.find "haml")]
    answers calls (fresh (.ok [])) = [.ok (.removed false), .ok (.kind .haml)] ∧
      answers calls (fresh (.ok [])).prepare =
        [.ok (.removed true), .error (.unknownDialect "haml" ["jade"])] := by
  refine ⟨rfl, ?_⟩
  have hs : ["jade"].mergeSort (· ≤ ·) = ["jade"] := List.mergeSort_singleton "jade"
  rw [← hs]
  rfl

end Registry

end TemplateTree
