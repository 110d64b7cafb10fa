import TemplateTree.Proofs.OneLine

/-!
# Readings before a gap

Two sources have the same lines up to a place and go on with other lines there. While two readings
stand at the same line before that place, a production cannot tell the sources apart unless it goes
past the place. `Carries` says that the second reading follows the first one wherever the first one
succeeds and `kept` holds in the end.

What is known of readings with the same lines ahead is used through a third cursor, whose source
ends at the place.
-/

set_option autoImplicit false

namespace TemplateTree

open Production Correspondence

/-- A node of which only the columns are known. -/
def Node.lineless (n : Node) : Node := n.relocate Position.columnOnly

/-- Nodes of which at most the lines differ. -/
def SameColumns (ns ns' : List Node) : Prop := ns.map Node.lineless = ns'.map Node.lineless

theorem SameColumns.append {ns ns' ms ms' : List Node} (h : SameColumns ns ns')
    (hm : SameColumns ms ms') : SameColumns (ns ++ ms) (ns' ++ ms') := by
  unfold SameColumns at *
  rw [List.map_append, List.map_append, h, hm]

theorem SameColumns.concat {ns ns' : List Node} {n n' : Node} (h : SameColumns ns ns')
    (hn : n.lineless = n'.lineless) : SameColumns (ns ++ [n]) (ns' ++ [n']) :=
  h.append (congrArg (fun m => [m]) hn)

/-- A cursor of a source that has the given line and lines ahead, and no others. -/
def Cursor.standIn (filename : String) (line : List Char) (ahead : List (List Char)) : Cursor :=
  ⟨filename, 1, (line :: ahead).map (⟨0, ·⟩), 1, 0, line, 0⟩

theorem Cursor.starts_standIn (filename : String) (line : List Char) (ahead : List (List Char)) :
    (standIn filename line ahead).Starts filename line ahead where
  filename := rfl
  line := rfl
  column := rfl
  inside := ⟨Int.le_refl _, Int.natCast_nonneg _, Int.le_refl _, by
    simp only [standIn, List.map_cons, List.length_cons]
    omega⟩
  upcoming := by simp [standIn, upcoming, Cursor.ahead, Function.comp_def]

/-- There is as much ahead of a reading as the lines `tail`. -/
def Reading.Before (tail : List (List Char)) (r : Reading) : Prop :=
  tail.length ≤ r.cursor.upcoming.length

theorem Cursor.Onward.upcoming_le {c c' : Cursor} (h : c.Onward c') :
    c'.upcoming.length ≤ c.upcoming.length := by
  have hentered := h.entered
  simp only [upcoming, ahead, List.length_map, List.length_drop, h.lines]
  omega

theorem Reading.Onward.before {tail : List (List Char)} {r s : Reading} (h : r.Onward s)
    (hs : s.Before tail) : r.Before tail :=
  Nat.le_trans hs h.cursor.upcoming_le

theorem Production.of_run_pure {α : Type} {a b : α} {r s : Reading}
    (h : (pure a : Production α).run r = (.ok b, s)) : a = b ∧ r = s := by
  obtain ⟨hvalue, hreading⟩ := Prod.mk.inj h
  exact ⟨Except.ok.inj hvalue, hreading⟩

/-- Where the first production succeeds and `kept` holds in the end, the second one succeeds. -/
def Carries {α : Type} (kept : α → Reading → Prop) (p p' : Production α) (r r' : Reading)
    (Q : α → α → Reading → Reading → Prop) : Prop :=
  ∀ a s, p.run r = (.ok a, s) → kept a s → ∃ a' s', p'.run r' = (.ok a', s') ∧ Q a a' s s'

section Rules
variable {α β : Type} {kept kept' : α → Reading → Prop} {left : β → Reading → Prop}
  {p p' : Production α} {f f' : α → Production β} {r r' : Reading}
  {Q Q' : α → α → Reading → Reading → Prop} {R : β → β → Reading → Reading → Prop}

theorem Carries.imp (h : Carries kept p p' r r' Q) (hkept : ∀ a s, kept' a s → kept a s)
    (hq : ∀ a a' s s', Q a a' s s' → Q' a a' s s') : Carries kept' p p' r r' Q' := by
  intro a s hrun hkeeps
  obtain ⟨a', s', hrun', hq'⟩ := h a s hrun (hkept a s hkeeps)
  exact ⟨a', s', hrun', hq a a' s s' hq'⟩

theorem Carries.pure {a a' : α} (hq : kept a r → Q a a' r r') :
    Carries kept (pure a) (pure a') r r' Q := by
  intro b s hrun hkept
  obtain ⟨rfl, rfl⟩ := of_run_pure hrun
  exact ⟨a', r', rfl, hq hkept⟩

/-- What the first production is known to do on its own. -/
theorem Carries.and_reads {P : α → Reading → Prop} (h : Carries kept p p' r r' Q)
    (hreads : Reads p r P) :
    Carries kept p p' r r' fun a a' s s' => Q a a' s s' ∧ r.Onward s ∧ P a s := by
  intro a s hrun hkept
  obtain ⟨a', s', hrun', hq⟩ := h a s hrun hkept
  exact ⟨a', s', hrun', hq, hreads.of_run hrun⟩

theorem Carries.of_error {e : Failure} {s : Reading} (h : p.run r = (.error e, s)) :
    Carries kept p p' r r' Q := by
  intro a t hrun
  cases h.symm.trans hrun

theorem Carries.bind (hp : Carries kept p p' r r' Q)
    (hback : ∀ a s b u, p.run r = (.ok a, s) → (f a).run s = (.ok b, u) → left b u → kept a s)
    (hf : ∀ a a' s s', Q a a' s s' → Carries left (f a) (f' a') s s' R) :
    Carries left (p >>= f) (p' >>= f') r r' R := by
  intro b u hrun hleft
  rw [run_bind] at hrun
  rcases hfirst : p.run r with ⟨e | a, s⟩ <;> rw [hfirst] at hrun
  · cases hrun
  · obtain ⟨a', s', hrun', hq⟩ := hp a s hfirst (hback a s b u hfirst hrun hleft)
    obtain ⟨b', u', hlast, hr⟩ := hf a a' s s' hq b u hrun hleft
    refine ⟨b', u', ?_, hr⟩
    rw [run_bind, hrun']
    exact hlast

/-- Where the gap is not passed in the end, it was not passed before. -/
theorem Carries.bind_before {tail : List (List Char)} {P : α → Reading → Prop}
    (hp : Carries (fun _ s => s.Before tail) p p' r r' Q) (hreads : Reads p r P)
    (hrest : ∀ a s, r.Onward s → P a s → Reads (f a) s fun b u => left b u → u.Before tail)
    (hf : ∀ a a' s s', Q a a' s s' → Carries left (f a) (f' a') s s' R) :
    Carries left (p >>= f) (p' >>= f') r r' R := by
  refine Carries.bind hp ?_ hf
  intro a s b u hfirst hrun hleft
  obtain ⟨hon, ha⟩ := hreads.of_run hfirst
  obtain ⟨hlater, hu⟩ := (hrest a s hon ha).of_run hrun
  exact hlater.before (hu hleft)

theorem Carries.bind_pure {g g' : α → β} (hp : Carries kept p p' r r' Q)
    (hleft : ∀ a s, left (g a) s → kept a s)
    (hr : ∀ a a' s s', Q a a' s s' → R (g a) (g' a') s s') :
    Carries left (do return g (← p)) (do return g' (← p')) r r' R := by
  refine Carries.bind hp ?_ fun a a' s s' hq => Carries.pure fun _ => hr a a' s s' hq
  intro a s b u _ hrun hu
  obtain ⟨rfl, rfl⟩ := of_run_pure hrun
  exact hleft a s hu

theorem carries_cursor_bind {f f' : Cursor → Production β} :
    Carries left (cursor >>= f) (cursor >>= f') r r' R ↔
      Carries left (f r.cursor) (f' r'.cursor) r r' R := by
  unfold Carries
  rw [run_cursor_bind, run_cursor_bind]

theorem carries_get_bind {f f' : Reading → Production β} :
    Carries left (get >>= f) (get >>= f') r r' R ↔ Carries left (f r) (f' r') r r' R := by
  unfold Carries
  rw [run_get_bind, run_get_bind]

theorem carries_modifyCursor_bind {m m' : Cursor → Cursor} {f f' : Unit → Production β} :
    Carries left (modifyCursor m >>= f) (modifyCursor m' >>= f') r r' R ↔
      Carries left (f ()) (f' ()) { r with cursor := m r.cursor }
        { r' with cursor := m' r'.cursor } R := by
  unfold Carries
  rw [run_modifyCursor_bind, run_modifyCursor_bind]

theorem carries_expected_bind (h : r.cursor.Inside) (what : Expected) :
    Carries left (expected what >>= f) (expected what >>= f') r r' R :=
  .of_error (run_expected_bind h what)

end Rules

/-- Both readings stand where the cursor `c` does, with the lines ahead that it has. After these the
first source goes on with `tail` and the second one with `tail'`. -/
structure Split (tail tail' : List (List Char)) (c : Cursor) (r r' : Reading) : Prop where
  first : (reaching tail).Together c r.cursor
  second : (reaching tail').Together c r'.cursor
  indent : r'.indent = r.indent

/-- Readings at the same place before a gap. -/
def Apart (tail tail' : List (List Char)) (r r' : Reading) : Prop :=
  ∃ c, Split tail tail' c r r'

/-- The readings of two sources, of which the first one ends where the second one goes on. -/
def sight (extra : List (List Char)) (r r' : Reading) : Comparison :=
  (reaching extra).knowing r.indent r'.indent r.outline r'.outline

namespace Split
variable {tail tail' : List (List Char)} {c : Cursor} {r r' : Reading}
  {α β γ : Type} {kept : α → Reading → Prop} {left : γ → Reading → Prop} {p : Production α}
  {f f' : α → Production γ} {R : γ → γ → Reading → Reading → Prop}

theorem inside (h : Split tail tail' c r r') : r.cursor.Inside := h.first.inside'

theorem inside' (h : Split tail tail' c r r') : r'.cursor.Inside := h.second.inside'

theorem line (h : Split tail tail' c r r') : r'.cursor.line = r.cursor.line :=
  h.second.line.trans h.first.line.symm

theorem column (h : Split tail tail' c r r') : r'.cursor.column = r.cursor.column :=
  h.second.column.trans h.first.column.symm

theorem rest (h : Split tail tail' c r r') : r'.cursor.rest = r.cursor.rest :=
  h.second.rest.trans h.first.rest.symm

theorem isEnd (h : Split tail tail' c r r') : r'.cursor.isEnd = r.cursor.isEnd :=
  h.second.isEnd.trans h.first.isEnd.symm

theorem filename (h : Split tail tail' c r r') : r'.cursor.filename = r.cursor.filename :=
  h.second.filename.trans h.first.filename.symm

theorem upcoming (h : Split tail tail' c r r') : r.cursor.upcoming = c.upcoming ++ tail :=
  h.first.upcoming

theorem upcoming' (h : Split tail tail' c r r') : r'.cursor.upcoming = c.upcoming ++ tail' :=
  h.second.upcoming

/-- The second reading has more ahead, and always by the same amount. -/
theorem remaining (h : Split tail tail' c r r') :
    r'.cursor.remaining + Text.extent tail = r.cursor.remaining + Text.extent tail' := by
  have hfirst := h.first.remaining
  have hsecond := h.second.remaining
  dsimp only [reaching] at hfirst hsecond
  omega

/-- Positions in the lines of both readings have the same columns. -/
theorem columnOnly_positionAt (h : Split tail tail' c r r') (column : Int) :
    (r.cursor.positionAt column).columnOnly = (r'.cursor.positionAt column).columnOnly :=
  (h.first.meets column).1.symm.trans (h.second.meets column).1

theorem move (h : Split tail tail' c r r') {d e e' : Cursor} (he : (reaching tail).Together d e)
    (he' : (reaching tail').Together d e') :
    Split tail tail' d { r with cursor := e } { r' with cursor := e' } :=
  ⟨he, he', h.indent⟩

theorem skip (h : Split tail tail' c r r') (n : Nat) :
    Split tail tail' (c.skip n) (r.skip n) (r'.skip n) :=
  h.move (h.first.skip n) (h.second.skip n)

/-- What the reading of a source that ends at the gap comes to, both readings come to. -/
theorem through (h : Split tail tail' c r r')
    {Q : List (List Char) → Reading → α → α → Reading → Reading → Prop}
    (hp : ∀ (extra : List (List Char)) (s : Reading), s.indent = r.indent →
      (sight extra r s).Alike { r with cursor := c } s →
      (sight extra r s).Agree False p p { r with cursor := c } s (Q extra s))
    {a : α} {s : Reading} (hrun : p.run r = (.ok a, s)) :
    ∃ a₀ s₀ a' s', p.run r' = (.ok a', s') ∧ Q tail r a₀ a s₀ s ∧
      Q tail' r' a₀ a' s₀ s' ∧ Apart tail tail' s s' := by
  have hfirst := hp tail r rfl ⟨⟨rfl, rfl, rfl, rfl⟩, h.first⟩
  have hsecond := hp tail' r' h.indent ⟨⟨rfl, rfl, rfl, rfl⟩, h.second⟩
  obtain ⟨a₀, s₀, hrun₀, hs, ha⟩ := hfirst.exists_of_ok_second hrun
  obtain ⟨a', s', hrun', hs', ha'⟩ := hsecond.exists_of_ok hrun₀
  refine ⟨a₀, s₀, a', s', hrun', ha, ha', s₀.cursor, hs.cursor, hs'.cursor, ?_⟩
  exact hs'.indent'.trans (h.indent.trans hs.indent'.symm)

theorem carries (h : Split tail tail' c r r') (view : α → β)
    (hp : ∀ (extra : List (List Char)) (s : Reading), s.indent = r.indent →
      (sight extra r s).Alike { r with cursor := c } s →
      (sight extra r s).Agree False p p { r with cursor := c } s
        fun a a' _ _ => view a = view a') :
    Carries kept p p r r' fun a a' s s' => view a = view a' ∧ Apart tail tail' s s' := by
  intro a s hrun _
  obtain ⟨a₀, s₀, a', s', hrun', ha, ha', hs⟩ :=
    h.through (Q := fun _ _ a a' _ _ => view a = view a') hp hrun
  exact ⟨a', s', hrun', ha.symm.trans ha', hs⟩

theorem carries_bind (h : Split tail tail' c r r') (view : α → β)
    (hp : ∀ (extra : List (List Char)) (s : Reading), s.indent = r.indent →
      (sight extra r s).Alike { r with cursor := c } s →
      (sight extra r s).Agree False p p { r with cursor := c } s
        fun a a' _ _ => view a = view a')
    (hf : ∀ a a' d s s', Split tail tail' d s s' → view a = view a' →
      Carries left (f a) (f' a') s s' R) :
    Carries left (p >>= f) (p >>= f') r r' R := by
  have hfree : Carries (fun _ _ => True) p p r r'
      fun a a' s s' => view a = view a' ∧ Apart tail tail' s s' := h.carries view hp
  refine Carries.bind hfree (fun _ _ _ _ _ _ _ => trivial) ?_
  rintro a a' s s' ⟨ha, d, hs⟩
  exact hf a a' d s s' hs ha

theorem carries_eat?_bind (h : Split tail tail' c r r') {pattern : Pattern}
    {f f' : Option Match → Production γ}
    (hnone : pattern r.cursor.rest = none → Carries left (f none) (f' none) r r' R)
    (hsome : ∀ m, pattern r.cursor.rest = some m →
      Carries left (f (some m)) (f' (some m)) (r.skip m.length) (r'.skip m.length) R) :
    Carries left (eat? pattern >>= f) (eat? pattern >>= f') r r' R := by
  have hrun : ∀ {q : Reading} {k : Option Match → Production γ}, q.cursor.Inside →
      (eat? pattern >>= k).run q = (pattern q.cursor.rest).elim ((k none).run q)
        fun m => (k (some m)).run (q.skip m.length) := by
    intro q k hq
    unfold eat?
    rw [bind_assoc, run_cursor_bind, Cursor.eat?_eq hq]
    cases pattern q.cursor.rest <;> rfl
  unfold Carries
  rw [hrun h.inside, hrun h.inside', h.rest]
  cases hm : pattern r.cursor.rest with
  | none => exact hnone hm
  | some m => exact hsome m hm

theorem carries_eat_bind (h : Split tail tail' c r r') {pattern : Pattern}
    {f f' : Bool → Production γ} (hf : ∀ b d s s', Split tail tail' d s s' →
      Carries left (f b) (f' b) s s' R) :
    Carries left (eat pattern >>= f) (eat pattern >>= f') r r' R := by
  unfold eat
  rw [bind_assoc, bind_assoc]
  apply h.carries_eat?_bind
  · exact fun _ => hf false c r r' h
  · exact fun m _ => hf true _ _ _ (h.skip m.length)

theorem carries_skipIndent_bind (h : Split tail tail' c r r') {f f' : Unit → Production γ}
    (hf : ∀ s s', Split tail tail' c.skipIndent s s' → Carries left (f ()) (f' ()) s s' R) :
    Carries left (skipIndent >>= f) (skipIndent >>= f') r r' R := by
  unfold skipIndent
  rw [carries_modifyCursor_bind]
  exact hf _ _ (h.move h.first.skipIndent h.second.skipIndent)

theorem carries_peekChar_bind (h : Split tail tail' c r r') {f f' : Option Char → Production γ} :
    Carries left (peekChar >>= f) (peekChar >>= f') r r' R ↔
      Carries left (f r.cursor.rest.head?) (f' r.cursor.rest.head?) r r' R := by
  have hrun : ∀ {q : Reading} {k : Option Char → Production γ}, q.cursor.Inside →
      (peekChar >>= k).run q = (k q.cursor.rest.head?).run q := by
    intro q k hq
    unfold peekChar
    rw [bind_assoc, run_cursor_bind, Cursor.peekChar_eq hq]
    rfl
  unfold Carries
  rw [hrun h.inside, hrun h.inside', h.rest]

end Split

/-- Induction along two loops, of which the first one does not go past the gap. -/
theorem carries_repeatWhile {β : Type} {tail tail' : List (List Char)}
    {step : β → Production (ForInStep β)} {Inv : β → Reading → Prop} {S : β → β → Prop}
    (hreads : ∀ b s, s.cursor.Inside → Inv b s →
      Reads (step b) s (Production.Repeats Inv Inv s))
    (hstep : ∀ b b' c s s', Split tail tail' c s s' → S b b' →
      Carries (fun _ t => t.Before tail) (step b) (step b') s s'
        fun x x' t t' => Comparison.Repeats S S x x' ∧ Apart tail tail' t t') :
    ∀ b b' s s', Apart tail tail' s s' → Inv b s → S b b' →
      Carries (fun _ t => t.Before tail) (repeatWhile step b) (repeatWhile step b') s s'
        fun x x' t t' => S x x' ∧ Apart tail tail' t t' := by
  intro b b' s s' h hinv hs
  unfold Carries repeatWhile
  rw [ExceptT.run_mk, ExceptT.run_mk]
  induction hn : s.cursor.remaining using Nat.strongRecOn generalizing b b' s s' with
  | ind n ih =>
    subst hn
    obtain ⟨c, hsplit⟩ := h
    intro x u hrun hu
    unfold iterate at hrun ⊢
    rcases hfirst : (step b).run s with ⟨e | y, t⟩ <;> rw [hfirst] at hrun
    · cases hrun
    obtain ⟨hon, hread⟩ := (hreads b s hsplit.inside hinv).of_run hfirst
    cases y with
    | done a =>
      obtain ⟨rfl, rfl⟩ := of_run_pure hrun
      obtain ⟨y', t', hfirst', hmatch, ht⟩ := hstep b b' c s s' hsplit hs _ _ hfirst hu
      cases y' with
      | done a' => exact ⟨a', t', by rw [hfirst'], hmatch, ht⟩
      | yield a' => exact hmatch.elim
    | yield a =>
      obtain ⟨hinv', hlt⟩ := hread
      dsimp only at hrun
      rw [if_pos hlt] at hrun
      -- what the other repetitions leave ahead was ahead after the first one
      have hforward : Reads (repeatWhile step a) t Inv :=
        reads_repeatWhile hon.inside Inv hinv' fun d q hq hi => hreads d q hq.inside hi
      have ht : t.Before tail := (hforward.of_run hrun).1.before hu
      obtain ⟨y', t', hfirst', hmatch, d, hd⟩ := hstep b b' c s s' hsplit hs _ _ hfirst ht
      cases y' with
      | done a' => exact hmatch.elim
      | yield a' =>
        have hlt' : t'.cursor.remaining < s'.cursor.remaining := by
          have hleft := hsplit.remaining
          have hleft' := hd.remaining
          omega
        rw [hfirst']
        dsimp only
        rw [if_pos hlt']
        exact ih _ hlt a a' t t' ⟨d, hd⟩ hinv' hmatch rfl x u hrun hu

end TemplateTree
