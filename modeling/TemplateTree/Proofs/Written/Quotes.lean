import TemplateTree.Proofs.Written.Pieces

/-!
# Quotes in strings

A reader that knows nothing of interpolations takes the first quote that no backslash protects for
the end of a string. The quotes of a text between double quotes are all protected, so that this is
the end of the string or a quote in an insert.
-/

set_option autoImplicit false

namespace TemplateTree

namespace Scan
variable {quote : Char} {cs ds : List Char}

/-- Text is inside of a string, or a quote in it ends the string. -/
def Held (quote : Char) (cs : List Char) : Prop :=
  Protected quote cs ∨ ∃ before after, Protected quote before ∧ cs = before ++ quote :: after

theorem Held.append (h : Held quote cs) (hd : Held quote ds) : Held quote (cs ++ ds) := by
  rcases h with h | ⟨before, after, hbefore, rfl⟩
  · rcases hd with hd | ⟨before, after, hbefore, rfl⟩
    · exact Or.inl (h.append hd)
    · exact Or.inr ⟨cs ++ before, after, h.append hbefore, by simp⟩
  · exact Or.inr ⟨before, after ++ ds, hbefore, by simp⟩

/-- A backslash at the end of a text protects the character behind it. -/
theorem protected_or_quote {d : Char} (hd : d ≠ quote) (hbackslash : d ≠ '\\') (cs : List Char) :
    Protected quote (cs ++ [d]) ∨ ∃ before after, Protected quote before ∧
      cs = before ++ quote :: after := by
  fun_induction closingQuote quote cs with
  | case1 => exact Or.inl (.plain hd hbackslash .nil)
  | case2 => exact Or.inl (.escaped d .nil)
  | case3 c rest ih =>
    rcases ih with ih | ⟨before, after, hbefore, rfl⟩
    · exact Or.inl (.escaped c ih)
    · exact Or.inr ⟨_, after, .escaped c hbefore, rfl⟩
  | case4 c rest _ _ hquote =>
    obtain rfl := beq_iff_eq.mp hquote
    exact Or.inr ⟨[], rest, .nil, rfl⟩
  | case5 c rest hlast hescape hquote ih =>
    have hc : c ≠ quote := by simpa using hquote
    have hplain : c ≠ '\\' := by
      rintro rfl
      cases rest with
      | nil => exact hlast rfl rfl
      | cons e rest => exact hescape e rest rfl rfl
    rcases ih with ih | ⟨before, after, hbefore, rfl⟩
    · exact Or.inl (.plain hc hplain ih)
    · exact Or.inr ⟨_, after, .plain hc hplain hbefore, rfl⟩

end Scan

theorem Quoting.protected_escape (cs : List Char) : Scan.Protected '"' (escape quoted cs) := by
  generalize hq : quoted = q
  fun_induction escape q cs with
  | case1 => exact .nil
  | case2 q rest ih => exact .escaped '#' (.plain (by decide) (by decide) (ih hq))
  | case3 rest ih => exact .escaped '"' (ih rfl)
  | case4 rest ih => exact .escaped '\\' (ih rfl)
  | case5 q c rest _ hquote hbackslash ih =>
    subst hq
    exact .plain (hquote rfl) (hbackslash rfl) (ih rfl)

namespace Piece
variable {pieces : List Piece}

theorem held_write (p : Piece) : Scan.Held '"' (p.write .quoted) := by
  cases p with
  | text content => exact Or.inl (Quoting.protected_escape content)
  | insert content =>
    have hopens : Scan.Protected '"' ['#', '\x7b'] :=
      .plain (by decide) (by decide) (.plain (by decide) (by decide) .nil)
    have hbody : Scan.Protected '"' (content ++ ['\x7d']) ∨ ∃ before after,
        Scan.Protected '"' before ∧ content = before ++ '"' :: after :=
      Scan.protected_or_quote (by decide) (by decide) content
    rcases hbody with hbody | ⟨before, after, hbefore, rfl⟩
    · exact Or.inl (hopens.append hbody)
    · exact Or.inr ⟨'#' :: '\x7b' :: before, after ++ ['\x7d'], hopens.append hbefore, by simp [write]⟩

theorem protected_write {p : Piece} (h : ∀ content, p = .insert content → '"' ∉ content) :
    Scan.Protected '"' (p.write .quoted) := by
  cases p with
  | text content => exact Quoting.protected_escape content
  | insert content =>
    rcases (insert content).held_write with hwrite | ⟨before, after, hbefore, hwrite⟩
    · exact hwrite
    · have hmem : '"' ∈ write .quoted (insert content) := by simp [hwrite]
      exact absurd (by simpa [write] using hmem) (h content rfl)

theorem held_flatMap (pieces : List Piece) : Scan.Held '"' (pieces.flatMap (write .quoted)) := by
  induction pieces with
  | nil => exact Or.inl .nil
  | cons p pieces ih => exact p.held_write.append ih

/-- What pieces are written as between double quotes starts with a whole string. -/
theorem exists_string (pieces : List Piece) :
    ∃ s rest, Scan.IsString s ∧ writeQuoted pieces = s ++ rest := by
  rcases held_flatMap pieces with h | ⟨before, after, hbefore, heq⟩
  · exact ⟨_, [], .intro rfl h, (List.append_nil _).symm⟩
  · exact ⟨_, after ++ ['"'], .intro rfl hbefore, by simp [writeQuoted, heq]⟩

/-- It is one when no insert has a double quote. -/
theorem isString_writeQuoted (h : ∀ content, .insert content ∈ pieces → '"' ∉ content) :
    Scan.IsString (writeQuoted pieces) := by
  refine .intro rfl ?_
  induction pieces with
  | nil => exact .nil
  | cons p pieces ih =>
    have hp : Scan.Protected '"' (p.write .quoted) :=
      protected_write fun content heq => h content (heq ▸ List.mem_cons_self)
    exact hp.append (ih fun content hmem => h content (List.mem_cons_of_mem _ hmem))

theorem getLast?_writeQuoted (pieces : List Piece) :
    (writeQuoted pieces).getLast? = some '"' := by
  rw [writeQuoted, ← List.cons_append, List.getLast?_concat]

end Piece

end TemplateTree
