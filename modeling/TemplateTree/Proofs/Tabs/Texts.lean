import TemplateTree.Proofs.Scans.Expressions
import TemplateTree.Proofs.Written.Pieces

/-!
# Tabs in place of spaces

A text in which some spaces are tabs is read alike by all patterns, as the parts of a string and as
an interpolation: only their contents differ. The one exception is an expression that a space ends.
It is the same when the character that it stops at is the same, and else it takes the tab in.
-/

set_option autoImplicit false

namespace TemplateTree

namespace Text

/-- A character, or a tab in place of a space. -/
def MayTab (c d : Char) : Prop := d = c ∨ c = ' ' ∧ d = '\t'

theorem MayTab.eq_of_ne {c d : Char} (h : MayTab c d) (hc : c ≠ ' ') : d = c :=
  h.resolve_right fun hboth => hc hboth.1

theorem MayTab.eq_of_ne_tab {c d : Char} (h : MayTab c d) (hd : d ≠ '\t') : d = c :=
  h.resolve_right fun hboth => hd hboth.2

theorem MayTab.map_eq {α : Type} {f : Char → α} (hf : f '\t' = f ' ') {c d : Char}
    (h : MayTab c d) : f d = f c := by
  rcases h with rfl | ⟨rfl, rfl⟩
  · rfl
  · exact hf

/-- A text, and one with tabs in place of some of its spaces. -/
abbrev Retabbed : List Char → List Char → Prop := List.Forall₂ MayTab

section Retabbed
variable {c d : Char} {cs ds : List Char}

theorem Retabbed.exists_of_cons (h : Retabbed (c :: cs) ds) (hc : c ≠ ' ') :
    ∃ rest, ds = c :: rest ∧ Retabbed cs rest := by
  cases h with
  | cons hd hrest => exact ⟨_, by rw [hd.eq_of_ne hc], hrest⟩

theorem Retabbed.exists_of_cons_right (h : Retabbed cs (d :: ds)) (hd : d ≠ '\t') :
    ∃ rest, cs = d :: rest ∧ Retabbed rest ds := by
  cases h with
  | cons hc hrest => exact ⟨_, by rw [hc.eq_of_ne_tab hd], hrest⟩

theorem Retabbed.head?_eq_iff (h : Retabbed cs ds) (hspace : c ≠ ' ') (htab : c ≠ '\t') :
    ds.head? = some c ↔ cs.head? = some c := by
  constructor
  · intro hhead
    obtain ⟨_, rfl⟩ := List.head?_eq_some_iff.mp hhead
    obtain ⟨_, rfl, -⟩ := h.exists_of_cons_right htab
    rfl
  · intro hhead
    obtain ⟨_, rfl⟩ := List.head?_eq_some_iff.mp hhead
    obtain ⟨_, rfl, -⟩ := h.exists_of_cons hspace
    rfl

theorem Retabbed.getElem?_of_ne {i : Nat} (h : Retabbed cs ds) (hne : ds[i]? ≠ cs[i]?) :
    cs[i]? = some ' ' ∧ ds[i]? = some '\t' := by
  induction h generalizing i with
  | nil => exact absurd rfl hne
  | cons hc _ ih =>
    cases i with
    | zero =>
      rcases hc with rfl | ⟨rfl, rfl⟩
      · exact absurd rfl hne
      · exact ⟨rfl, rfl⟩
    | succ i => exact ih hne

theorem retabbed_tab (before after : List Char) :
    Retabbed (before ++ ' ' :: after) (before ++ '\t' :: after) := by
  have same (text : List Char) : Retabbed text text := List.forall₂_same.mpr fun _ _ => Or.inl rfl
  exact List.rel_append (same before) (.cons (Or.inr ⟨rfl, rfl⟩) (same after))

/-- A tab in place of one space. -/
theorem eq_length_of_getElem?_tab (before : List Char) {after : List Char} {i : Nat}
    (h : (before ++ '\t' :: after)[i]? ≠ (before ++ ' ' :: after)[i]?) : i = before.length := by
  by_contra hne
  refine h ?_
  rcases Nat.lt_or_gt_of_ne hne with hlt | hgt
  · rw [List.getElem?_append_left hlt, List.getElem?_append_left hlt]
  · obtain ⟨k, rfl⟩ := Nat.exists_eq_add_of_lt hgt
    rw [List.getElem?_append_right (by omega), List.getElem?_append_right (by omega),
      Nat.add_assoc, Nat.add_sub_cancel_left, List.getElem?_cons_succ, List.getElem?_cons_succ]

/-- Texts with the same start have the same parts of it. -/
theorem take_eq_and_drop {n k : Nat} (hle : n ≤ k) (h : ds.take k = cs.take k) :
    ds.take n = cs.take n ∧ (ds.drop n).take (k - n) = (cs.drop n).take (k - n) := by
  have hfirst := congrArg (List.take n) h
  have hrest := congrArg (List.drop n) h
  rw [List.take_take, List.take_take, Nat.min_eq_left hle] at hfirst
  rw [List.drop_take, List.drop_take] at hrest
  exact ⟨hfirst, hrest⟩

end Retabbed

end Text

open Text

variable {cs cs' : List Char}

namespace Pattern

theorem runLength_retabbed {p : Char → Bool} (hp : p '\t' = p ' ') (h : Retabbed cs cs') :
    runLength p cs' = runLength p cs := by
  induction h with
  | nil => rfl
  | @cons c d cs cs' hc _ ih =>
    unfold runLength run at ih ⊢
    rw [List.takeWhile_cons, List.takeWhile_cons, hc.map_eq hp]
    cases p c
    · rfl
    · simp only [if_true, List.length_cons, ih]

/-- The pattern matches as much of a text with tabs in place of spaces. -/
def Blind (p : Pattern) : Prop :=
  ∀ ⦃cs cs' : List Char⦄, Retabbed cs cs' → (p cs').map Match.length = (p cs).map Match.length

section Blind
variable {p q : Pattern}

theorem blind_many {isIt : Char → Bool} (h : isIt '\t' = isIt ' ') : Blind (many isIt) := by
  intro cs cs' hcs
  rw [many, many, runLength_retabbed h hcs]

theorem blind_some1 {isIt : Char → Bool} (h : isIt '\t' = isIt ' ') : Blind (some1 isIt) := by
  intro cs cs' hcs
  rw [some1, some1, runLength_retabbed h hcs]

theorem blind_char {c : Char} (h : ('\t' == c) = (' ' == c)) : Blind (char c) := by
  intro cs cs' hcs
  cases hcs with
  | nil => rfl
  | cons hd _ => rw [char, satisfy, satisfy, hd.map_eq (f := (· == c)) h]

theorem Blind.andThen (hp : Blind p) (hq : Blind q) : Blind (p.andThen q) := by
  intro cs cs' hcs
  have hfirst := hp hcs
  unfold Pattern.andThen
  cases h : p cs with
  | none =>
    rw [h, Option.map_none, Option.map_eq_none_iff] at hfirst
    rw [hfirst]
  | some m =>
    rw [h, Option.map_some, Option.map_eq_some_iff] at hfirst
    obtain ⟨m', hm', hlength⟩ := hfirst
    have hsecond := hq (List.forall₂_drop m.length hcs)
    rw [hm']
    dsimp only
    rw [hlength]
    cases h₂ : q (cs.drop m.length) with
    | none =>
      rw [h₂, Option.map_none, Option.map_eq_none_iff] at hsecond
      rw [hsecond]
    | some k =>
      rw [h₂, Option.map_some, Option.map_eq_some_iff] at hsecond
      obtain ⟨k', hk', hlength'⟩ := hsecond
      rw [hk']
      simp only [Option.map_some, hlength']

theorem Blind.exists_eq_some (hp : Blind p) (h : Retabbed cs cs') {m : Match} (hm : p cs = some m) :
    ∃ m', p cs' = some m' ∧ m'.length = m.length := by
  have hlength := hp h
  rwa [hm, Option.map_some, Option.map_eq_some_iff] at hlength

theorem Blind.eq_none (hp : Blind p) (h : Retabbed cs cs') (hnone : p cs = none) :
    p cs' = none := by
  have hlength := hp h
  rwa [hnone, Option.map_none, Option.map_eq_none_iff] at hlength

end Blind

theorem blind_htmlOpen : Blind htmlOpen := (blind_char rfl).andThen (blind_many rfl)

theorem blind_htmlName : Blind htmlName := blind_some1 rfl

theorem blind_htmlEquals : Blind htmlEquals :=
  (blind_many rfl).andThen ((blind_char rfl).andThen (blind_many rfl))

theorem blind_htmlClose : Blind htmlClose := (blind_many rfl).andThen (blind_char rfl)

theorem blind_htmlSeparator : Blind htmlSeparator := blind_some1 rfl

theorem run_retabbed {p : Char → Bool} (hspace : p ' ' = false) (htab : p '\t' = false)
    (h : Retabbed cs cs') : run p cs' = run p cs := by
  unfold run
  induction h with
  | nil => rfl
  | cons hc _ ih =>
    rw [List.takeWhile_cons, List.takeWhile_cons, ih]
    rcases hc with rfl | ⟨rfl, rfl⟩
    · rfl
    · rw [hspace, htab]
      rfl

theorem captured_some1_retabbed {p : Char → Bool} (hspace : p ' ' = false) (htab : p '\t' = false)
    (h : Retabbed cs cs') : captured (some1 p) cs' = captured (some1 p) cs := by
  have hlength := runLength_retabbed (htab.trans hspace.symm) h
  have htake : cs'.take (runLength p cs') = cs.take (runLength p cs) := by
    rw [take_runLength, take_runLength]
    exact run_retabbed hspace htab h
  unfold captured some1
  rw [hlength] at htake ⊢
  cases hn : runLength p cs with
  | zero => rfl
  | succ n =>
    rw [hn] at htake
    simp only [Option.map_some, Match.plain, htake]

theorem symbol_retabbed (h : Retabbed cs cs') : symbol cs' = symbol cs := by
  cases h with
  | nil => rfl
  | @cons c d cs cs' hc hrest =>
    have hname := captured_some1_retabbed (p := isWord) rfl rfl hrest
    have hcolon : (d == ':') = (c == ':') := hc.map_eq (f := (· == ':')) rfl
    simp only [symbol, sequence, andThen, char, satisfy, hcolon]
    by_cases hsymbol : (c == ':') = true
    · simp only [if_pos hsymbol, Match.plain, List.drop_one, List.tail_cons, hname]
    · simp only [if_neg hsymbol]

theorem quotedRun_retabbed (h : Retabbed cs cs') : quotedRun cs' = quotedRun cs := by
  fun_induction quotedRun cs generalizing cs' with
  | case1 =>
    cases h
    rfl
  | case2 rest ih | case3 rest ih =>
    obtain ⟨_, rfl, h₁⟩ := h.exists_of_cons (by decide)
    obtain ⟨_, rfl, h₂⟩ := h₁.exists_of_cons (by decide)
    rw [quotedRun, ih h₂]
  | case4 rest ih =>
    obtain ⟨_, rfl, h₁⟩ := h.exists_of_cons (by decide)
    obtain ⟨_, rfl, h₂⟩ := h₁.exists_of_cons (by decide)
    obtain ⟨_, rfl, h₃⟩ := h₂.exists_of_cons (by decide)
    rw [quotedRun, ih h₃]
  | case5 rest =>
    obtain ⟨_, rfl, h₁⟩ := h.exists_of_cons (by decide)
    obtain ⟨_, rfl, -⟩ := h₁.exists_of_cons (by decide)
    rfl
  | case6 c rest hquote hbackslash hprotected hopens hstop =>
    have hc : c = '\\' ∨ c = '"' := by simpa using hstop
    obtain ⟨ds, rfl, hrest⟩ := h.exists_of_cons (by rcases hc with rfl | rfl <;> decide)
    rw [quotedRun, if_pos hstop]
    · rintro _ rfl rfl
      obtain ⟨_, rfl, -⟩ := hrest.exists_of_cons_right (by decide)
      exact hquote _ rfl rfl
    · rintro _ rfl rfl
      obtain ⟨_, rfl, -⟩ := hrest.exists_of_cons_right (by decide)
      exact hbackslash _ rfl rfl
    · rintro _ rfl rfl
      obtain ⟨_, rfl, hmore⟩ := hrest.exists_of_cons_right (by decide)
      obtain ⟨_, rfl, -⟩ := hmore.exists_of_cons_right (by decide)
      exact hprotected _ rfl rfl
    · rintro _ rfl
      rcases hc with hc | hc <;> cases hc
  | case7 c rest _ _ _ hopens hgoes ih =>
    have hc : c ≠ '\\' ∧ c ≠ '"' := by simpa using hgoes
    cases h with
    | @cons _ d _ ds hd hrest =>
      have hd' : d ≠ '\\' ∧ d ≠ '"' := by
        rcases hd with rfl | ⟨rfl, rfl⟩
        · exact hc
        · decide
      rw [Quoting.quotedRun_cons hd'.2 hd'.1, ih hrest]
      rintro rfl hbrace
      obtain ⟨_, rfl⟩ := List.head?_eq_some_iff.mp hbrace
      obtain ⟨_, rfl, -⟩ := Retabbed.exists_of_cons_right hrest (by decide)
      exact hopens _ (hd.eq_of_ne_tab (by decide)).symm rfl

end Pattern

namespace Scan

theorem closingBrace_retabbed {depth : Nat} {quote : Option Char} (hquote : ∀ q ∈ quote, isQuote q)
    (h : Retabbed cs cs') : closingBrace depth quote cs' = closingBrace depth quote cs := by
  fun_induction closingBrace depth quote cs generalizing cs' with
  | case1 =>
    cases h
    rfl
  | case2 depth quote c rest ih =>
    obtain ⟨_, rfl, hrest⟩ := h.exists_of_cons (by decide)
    cases hrest with
    | cons _ hrest => rw [closingBrace_escaped, ih hquote hrest]
  | case3 depth quote c rest hescaped ih =>
    have hopens : isQuote quote := hquote quote rfl
    have hinside : ∀ q ∈ (if c == quote then none else some quote), isQuote q := by
      intro q hq
      split at hq
      · cases hq
      · exact hquote q hq
    cases h with
    | @cons _ d _ ds hd hrest =>
      by_cases hbackslash : c = '\\'
      · -- a backslash that protects nothing is the last character
        have hlast : rest = [] := by
          cases rest with
          | nil => rfl
          | cons c rest => exact (hescaped c rest hbackslash rfl).elim
        subst hbackslash hlast
        cases hrest
        obtain rfl := hd.eq_of_ne (by decide)
        simp [closingBrace]
      · have hplain : d ≠ '\\' := by
          rcases hd with rfl | ⟨rfl, rfl⟩
          · exact hbackslash
          · decide
        have hsame : (d == quote) = (c == quote) := by
          refine hd.map_eq (f := (· == quote)) ?_
          have hne : ∀ b, isQuote b = false → (b == quote) = false := fun b hb =>
            beq_eq_false_iff_ne.mpr fun h => by simp [h, hopens] at hb
          exact (hne '\t' rfl).trans (hne ' ' rfl).symm
        rw [closingBrace_inString hplain, hsame, ih hinside hrest]
  | case4 depth c rest hopens ih =>
    obtain ⟨_, rfl, hrest⟩ := h.exists_of_cons (by rintro rfl; cases hopens)
    rw [closingBrace_quote hopens, ih (by simpa using hopens) hrest]
  | case5 depth c rest _ hopening ih =>
    obtain rfl := beq_iff_eq.mp hopening
    obtain ⟨_, rfl, hrest⟩ := h.exists_of_cons (by decide)
    rw [closingBrace_opening, ih (by simp) hrest]
  | case6 c rest _ _ hcloses =>
    obtain rfl := beq_iff_eq.mp hcloses
    obtain ⟨_, rfl, -⟩ := h.exists_of_cons (by decide)
    rfl
  | case7 c rest _ _ hcloses depth ih =>
    obtain rfl := beq_iff_eq.mp hcloses
    obtain ⟨_, rfl, hrest⟩ := h.exists_of_cons (by decide)
    rw [closingBrace_closing, ih (by simp) hrest]
  | case8 depth c rest hquotes hopens hcloses ih =>
    cases h with
    | @cons _ d _ ds hd hrest =>
      have hinner : IsInner d := by
        rcases hd with rfl | ⟨rfl, rfl⟩
        · exact ⟨by simpa using hquotes, by simpa using hopens, by simpa using hcloses⟩
        · exact ⟨rfl, by decide, by decide⟩
      rw [closingBrace_inner hinner, ih (by simp) hrest]

theorem interpolation_retabbed (h : Retabbed cs cs') : interpolation cs' = interpolation cs := by
  refine Option.ext fun n => ?_
  rw [interpolation_eq_some_iff, interpolation_eq_some_iff]
  constructor
  · rintro ⟨body, m, rfl, hn, hm, hbrace⟩
    obtain ⟨_, rfl, h₁⟩ := h.exists_of_cons_right (by decide)
    obtain ⟨_, rfl, h₂⟩ := h₁.exists_of_cons_right (by decide)
    exact ⟨_, m, rfl, hn, hm, (closingBrace_retabbed (by simp) h₂).symm.trans hbrace⟩
  · rintro ⟨body, m, rfl, hn, hm, hbrace⟩
    obtain ⟨_, rfl, h₁⟩ := h.exists_of_cons (by decide)
    obtain ⟨_, rfl, h₂⟩ := h₁.exists_of_cons (by decide)
    exact ⟨_, m, rfl, hn, hm, (closingBrace_retabbed (by simp) h₂).trans hbrace⟩

end Scan

namespace Part

/-- A string ends where it did. It has the same parts if its own characters are the same. -/
theorem read_quoted_retabbed (start : Int) (h : Retabbed cs cs') :
    (read .quoted start cs').2 = (read .quoted start cs).2 ∧
      ∀ k : Nat, (read .quoted start cs).2 = start + k → cs'.take k = cs.take k →
        read .quoted start cs' = read .quoted start cs := by
  have hrun {cs cs' : List Char} (h : Retabbed cs cs') :
      Quoting.quoted.run cs' = Quoting.quoted.run cs := Pattern.quotedRun_retabbed h
  fun_induction read .quoted start cs generalizing cs' with
  | case1 start cs hn n parts stop heq =>
    rename_i ih
    obtain ⟨hstop, hsame⟩ := ih (List.forall₂_drop n h)
    have hle := le_stop_read .quoted (start + n) (cs.drop n)
    rw [heq] at hstop hsame hle
    rw [read_run (by rwa [hrun h]), hrun h]
    refine ⟨hstop, fun k hk htake => ?_⟩
    have hnk : n ≤ k := by
      dsimp only at hk hle
      omega
    obtain ⟨hfirst, hrest⟩ := take_eq_and_drop hnk htake
    rw [hsame (k - n) (by dsimp only at hk ⊢; omega) hrest, hfirst]
  | case2 start cs hn n hscan hlt parts stop heq ih =>
    obtain ⟨hstop, hsame⟩ := ih (List.forall₂_drop (n + 1) h)
    have hle := le_stop_read .quoted (start + n + 1) (cs.drop (n + 1))
    have hscan' := (Scan.interpolation_retabbed h).trans hscan
    rw [heq] at hstop hsame hle
    rw [read_interpolation (by rw [hrun h]; omega) hscan']
    refine ⟨hstop, fun k hk htake => ?_⟩
    have hnk : n + 1 ≤ k := by
      dsimp only at hk hle
      omega
    obtain ⟨hfirst, hrest⟩ := take_eq_and_drop hnk htake
    have hcode := (take_eq_and_drop (Nat.le_succ n) hfirst).1
    rw [hsame (k - (n + 1)) (by dsimp only at hk ⊢; omega) hrest, hcode]
  | case3 start cs hn hscan =>
    rw [read_none (by rw [hrun h]; omega) (by rw [Scan.interpolation_retabbed h, hscan])]
    exact ⟨rfl, fun _ _ _ => rfl⟩

end Part

namespace Scan

/-- Outside of strings and groups, all that was read belongs to the expression. -/
def Reach.Whole (r : Reach) : Prop := r.closers = [] → r.quote = none → r.stop = r.read

theorem Reach.whole_take (r : Reach) : r.take.Whole := by
  intro hclosers _
  have hnil : r.closers = [] := hclosers
  simp [Reach.take, hnil]

/-- Where so many characters were read before, the character at a place is the same. -/
def SameAt (place read : Nat) (cs ds : List Char) : Prop :=
  ∀ i, read + i = place → ds[i]? = cs[i]?

theorem SameAt.tail {place read : Nat} {c d : Char} {cs ds : List Char}
    (h : SameAt place read (c :: cs) (d :: ds)) : SameAt place (read + 1) cs ds :=
  fun i hi => h (i + 1) (by omega)

theorem expressionEnd_retabbed {r : Reach} (hquote : ∀ q ∈ r.quote, isQuote q) (hwhole : r.Whole)
    (h : Retabbed cs cs') (hnext : SameAt (expressionEnd [' '] r cs) r.read cs cs') :
    expressionEnd [' '] r cs' = expressionEnd [' '] r cs := by
  -- a space and a tab are passed over alike in a string or a group, and outside of them a space is
  -- where the scan stops
  fun_induction expressionEnd [' '] r cs generalizing cs' with
  | case1 r =>
    cases h
    rfl
  | case2 r c quote hin hbackslash =>
    obtain rfl := beq_iff_eq.mp hbackslash
    obtain ⟨_, rfl, hrest⟩ := h.exists_of_cons (by decide)
    cases hrest
    simp [expressionEnd.eq_def, hin]
  | case3 r c quote hin hbackslash d rest ih =>
    obtain rfl := beq_iff_eq.mp hbackslash
    obtain ⟨_, rfl, hrest⟩ := h.exists_of_cons (by decide)
    cases hrest with
    | cons _ hrest =>
      have hmore := ih hquote (fun _ hnone => by cases hnone.symm.trans hin) hrest hnext.tail.tail
      rw [expressionEnd.eq_def]
      simpa [hin] using hmore
  | case4 r c rest quote hin hbackslash hends ih =>
    obtain rfl := beq_iff_eq.mp hends
    have hopens : isQuote c := hquote c hin
    obtain ⟨_, rfl, hrest⟩ := h.exists_of_cons (by rintro rfl; cases hopens)
    have hmore := ih (fun q hq => by cases hq) (Reach.whole_take _) hrest hnext.tail
    rw [expressionEnd.eq_def]
    simpa [hin, hbackslash] using hmore
  | case5 r c rest quote hin hbackslash hends ih =>
    have hopens : isQuote quote := hquote quote hin
    cases h with
    | @cons _ d _ ds hd hrest =>
      have hmore := ih hquote (fun _ hnone => by cases hnone.symm.trans hin) hrest hnext.tail
      have hinside : ¬ (d == '\\') = true ∧ ¬ (d == quote) = true := by
        rcases hd with rfl | ⟨rfl, rfl⟩
        · exact ⟨hbackslash, hends⟩
        · refine ⟨by decide, fun htab => ?_⟩
          rw [← beq_iff_eq.mp htab] at hopens
          cases hopens
      rw [expressionEnd.eq_def]
      simpa [hin, hinside] using hmore
  | case6 r c rest hout hopens ih =>
    obtain ⟨_, rfl, hrest⟩ := h.exists_of_cons (by rintro rfl; cases hopens)
    have hmore := ih (by simpa [Reach.pass] using hopens) (fun _ hnone => by cases hnone) hrest
      hnext.tail
    rw [expressionEnd.eq_def]
    simpa [hout, hopens] using hmore
  | case7 r c rest hout hplain closer hcloser ih =>
    obtain ⟨_, rfl, hrest⟩ := h.exists_of_cons (by rintro rfl; cases hcloser)
    have hmore := ih hquote (fun hnil _ => by cases hnil) hrest hnext.tail
    rw [expressionEnd.eq_def]
    simpa [hout, hplain, hcloser] using hmore
  | case8 r c rest hout hplain hopener hcloses hnil =>
    obtain ⟨_, rfl, hrest⟩ := h.exists_of_cons (by rintro rfl; cases hcloses)
    rw [expressionEnd.eq_def]
    simp [hout, hplain, hopener, hcloses, hnil]
  | case9 r c rest hout hplain hopener hcloses closer outer hclosers hends ih =>
    obtain ⟨_, rfl, hrest⟩ := h.exists_of_cons (by rintro rfl; cases hcloses)
    have hmore := ih hquote (Reach.whole_take _) hrest hnext.tail
    rw [expressionEnd.eq_def]
    simpa [hout, hplain, hopener, hcloses, hclosers, hends] using hmore
  | case10 r c rest hout hplain hopener hcloses closer outer hclosers hends =>
    obtain ⟨_, rfl, hrest⟩ := h.exists_of_cons (by rintro rfl; cases hcloses)
    rw [expressionEnd.eq_def]
    simp [hout, hplain, hopener, hcloses, hclosers, hends]
  | case11 r c rest hout hplain hopener hcloses hbackslash =>
    obtain rfl := beq_iff_eq.mp hbackslash
    obtain ⟨_, rfl, hrest⟩ := h.exists_of_cons (by decide)
    rw [expressionEnd.eq_def]
    simp [hout, hplain, hopener, hcloses]
  | case12 r c rest hout hplain hopener hcloses hbackslash hdelimiter =>
    obtain ⟨hnil, rfl⟩ : r.closers = [] ∧ c = ' ' := by simpa using hdelimiter
    have hhead := hnext 0 (hwhole hnil hout).symm
    cases h with
    | @cons _ d _ ds hd hrest =>
      obtain rfl : d = ' ' := Option.some.inj hhead
      simp [expressionEnd.eq_def, hout, hopener, hcloses, hnil, isQuote]
  | case13 r c rest hout hplain hopener hcloses hbackslash hdelimiter hspace ih =>
    obtain rfl := beq_iff_eq.mp hspace
    have hgroup : r.closers ≠ [] := by simpa using hdelimiter
    cases h with
    | @cons _ d _ ds hd hrest =>
      have hmore := ih hquote (fun hnil _ => absurd hnil hgroup) hrest hnext.tail
      -- in a group neither of the two moves the end of the expression
      have htake : r.take = r.pass := by simp [Reach.take, Reach.pass, hgroup]
      rw [expressionEnd.eq_def]
      rcases hd with rfl | ⟨-, rfl⟩ <;>
        simpa [hout, hgroup, htake, isQuote, closer?, isCloser] using hmore
  | case14 r c rest hout hplain hopener hcloses hbackslash hdelimiter hspace ih =>
    obtain ⟨_, rfl, hrest⟩ := h.exists_of_cons (by simpa using hspace)
    have hmore := ih hquote (Reach.whole_take _) hrest hnext.tail
    have hinner : ¬ (r.closers = [] ∧ c = ' ') := by simpa using hdelimiter
    rw [expressionEnd.eq_def]
    simpa [hout, hplain, hopener, hcloses, hbackslash, hinner, hspace] using hmore

/-- An expression that a space may end is the same, if the character that it stops at is. -/
theorem expression_retabbed {m : Nat} (h : Retabbed cs cs') (hm : expression [' '] cs = some m)
    (hnext : cs'[m]? = cs[m]?) : expression [' '] cs' = some m := by
  rw [expression_eq] at hm
  split at hm
  · cases hm
  · rename_i hpos
    have hend : expressionEnd [' '] .start cs' = expressionEnd [' '] .start cs := by
      refine expressionEnd_retabbed nofun (fun _ _ => rfl) h fun i hi => ?_
      obtain rfl : i = m := by
        rw [← Option.some.inj hm, ← hi]
        exact (Nat.zero_add i).symm
      exact hnext
    rw [expression_eq, hend, if_neg hpos, hm]

theorem IsExpression.items {delimiters : List Char} (h : IsExpression delimiters cs) :
    Items delimiters cs := by
  cases h with
  | intro before last _ => exact .concat before last

/-- A tab goes on with an expression that only a space may end. -/
theorem exists_expression_of_tab {m : Nat} (hm : expression [' '] cs = some m)
    (hbefore : cs'.take m = cs.take m) (htab : cs'[m]? = some '\t') :
    ∃ m', m < m' ∧ expression [' '] cs' = some m' := by
  obtain ⟨hlt, hget⟩ := List.getElem?_eq_some_iff.mp htab
  have hexpression : IsExpression [' '] (cs'.take (m + 1)) := by
    have hitems := (expression_eq_some_iff.mp hm).1.2.items
    rw [← hbefore] at hitems
    rw [List.take_succ_eq_append_getElem hlt, hget]
    exact .intro hitems (.char ⟨rfl, rfl, rfl, by decide⟩ (by decide)) (by decide)
  have hle := le_expressionEnd hlt hexpression
  refine ⟨_, hle, ?_⟩
  rw [expression_eq, if_neg (by omega)]

end Scan

end TemplateTree
