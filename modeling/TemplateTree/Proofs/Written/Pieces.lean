import TemplateTree.Proofs.Scans.Interpolations
import TemplateTree.Proofs.Strings

/-!
# Pieces of strings

A string is made of texts and of expressions between braces. A text is written with a backslash
before everything that would end it or open an expression, so that what a run of text is cut to is
what its text is written as. Written between double quotes, pieces are cut again where they were
put together.
-/

set_option autoImplicit false

namespace TemplateTree

namespace Scan

/-- What an interpolation may hold. -/
structure IsBody (cs : List Char) : Prop where
  ne_nil : cs ≠ []
  inside : Interior cs

theorem interpolation_body {cs : List Char} (h : IsBody cs) (rest : List Char) :
    interpolation ('#' :: '\x7b' :: (cs ++ '\x7d' :: rest)) = some (cs.length + 2) := by
  have hbrace : closingBrace 0 none (cs ++ '\x7d' :: rest) = some cs.length := by
    rw [closingBrace_interior h.inside, closingBrace.eq_def]
    simp [isQuote]
  exact interpolation_eq_some_iff.mpr
    ⟨_, cs.length, rfl, rfl, fun hnil => h.ne_nil (List.length_eq_zero_iff.mp hnil), hbrace⟩

/-- What an interpolation may hold is what a scan finds between its braces. -/
theorem isBody_iff {cs : List Char} : IsBody cs ↔
    interpolation ('#' :: '\x7b' :: (cs ++ ['\x7d'])) = some (cs.length + 2) := by
  refine ⟨fun h => interpolation_body h [], fun h => ?_⟩
  obtain ⟨body, n, hbody, hlength, hne, hbrace⟩ := interpolation_eq_some_iff.mp h
  obtain rfl : n = cs.length := by omega
  obtain rfl : cs ++ ['\x7d'] = body := List.tail_eq_of_cons_eq (List.tail_eq_of_cons_eq hbody)
  have hinside := (closingBrace_eq_some_iff.mp hbrace).2
  rw [List.take_left] at hinside
  exact ⟨fun hnil => hne (List.length_eq_zero_iff.mpr hnil), hinside⟩

/-- An interpolation is two characters, what it holds, and a brace. -/
theorem take_interpolation {cs : List Char} {n : Nat} (h : interpolation cs = some n) :
    cs.take (n + 1) = '#' :: '\x7b' :: ((cs.take n).drop 2 ++ ['\x7d']) := by
  obtain ⟨body, k, rfl, rfl, -, hbrace⟩ := interpolation_eq_some_iff.mp h
  obtain ⟨hlt, hget⟩ := List.getElem?_eq_some_iff.mp (closingBrace_eq_some_iff.mp hbrace).1
  rw [List.take_succ_cons, List.take_succ_cons, List.take_succ_cons, List.take_succ_cons,
    List.take_succ_eq_append_getElem hlt, hget]
  rfl

end Scan

namespace Quoting

/-- Puts a backslash before everything that would not stand for itself. -/
def escape : Quoting → List Char → List Char
  | _, [] => []
  | q, '#' :: '{' :: rest => '\\' :: '#' :: '{' :: escape q rest
  | quoted, '"' :: rest => '\\' :: '"' :: escape quoted rest
  | quoted, '\\' :: rest => '\\' :: '\\' :: escape quoted rest
  | q, c :: rest => c :: escape q rest

section Steps
variable {q : Quoting} {c : Char} {cs : List Char}

theorem unescape_bare_cons (h : c = '\\' → ¬ ['#', '\x7b'] <+: cs) :
    unescape bare (c :: cs) = c :: unescape bare cs := by
  rw [unescape.eq_def]
  split <;> simp_all

theorem unescape_quoted_cons (h : c ≠ '\\') :
    unescape quoted (c :: cs) = c :: unescape quoted cs := by
  rw [unescape.eq_def]
  split <;> simp_all

theorem escape_bare_cons (h : c = '#' → cs.head? ≠ some '\x7b') :
    escape bare (c :: cs) = c :: escape bare cs := by
  rw [escape.eq_def]
  split <;> simp_all

theorem escape_quoted_cons (hquote : c ≠ '"') (hbackslash : c ≠ '\\')
    (h : c = '#' → cs.head? ≠ some '\x7b') : escape quoted (c :: cs) = c :: escape quoted cs := by
  rw [escape.eq_def]
  split <;> simp_all

theorem head_unescape (h : (q.unescape cs).head? = some '\x7b') : cs.head? = some '\x7b' := by
  rw [unescape.eq_def] at h
  split at h <;> simp_all

theorem head_escape (h : (q.escape cs).head? = some '\x7b') : cs.head? = some '\x7b' := by
  rw [escape.eq_def] at h
  split at h <;> simp_all

end Steps

/-- A hash that opens no interpolation opens none when what follows is cut and unescaped. -/
theorem head_unescape_take_ne {q : Quoting} {n : Nat} {c : Char} {cs : List Char}
    (h : ∀ rest, c = '#' → cs = '\x7b' :: rest → False) (hc : c = '#') :
    (q.unescape (cs.take n)).head? ≠ some '\x7b' := by
  intro hhead
  have hcs := head_unescape hhead
  rw [List.head?_take] at hcs
  split at hcs
  · cases hcs
  · obtain ⟨rest, hrest⟩ := List.head?_eq_some_iff.mp hcs
    exact h rest hc hrest

/-- A run of text ends before an interpolation. -/
theorem not_prefix_take_bareRun (cs : List Char) :
    ¬ ['#', '\x7b'] <+: cs.take (Pattern.bareRun cs) := by
  intro h
  obtain ⟨rest, hrest⟩ := h.trans (List.take_prefix _ _)
  rw [← hrest] at h
  simp [Pattern.bareRun] at h

theorem escape_unescape_bare (cs : List Char) :
    escape bare (unescape bare (cs.take (Pattern.bareRun cs))) = cs.take (Pattern.bareRun cs) := by
  fun_induction Pattern.bareRun cs with
  | case1 | case3 | case5 => rfl
  | case2 rest ih => simp [unescape, escape, ih]
  | case4 c rest _ hhash ih =>
    have hc : '#' ≠ c := fun h => hhash h.symm
    have hpair : ¬ ['#', '\x7b'] <+: c :: rest.take (Pattern.bareRun rest) :=
      fun h => hc (List.cons_prefix_cons.mp h).1
    rw [List.take_succ_cons, List.take_succ_cons, unescape_bare_cons fun _ => hpair,
      unescape_bare_cons fun _ => not_prefix_take_bareRun rest, escape_bare_cons (by simp),
      escape_bare_cons fun h => absurd h.symm hc, ih]
  | case6 c rest _ _ hpair hopens ih =>
    -- a backslash is the last character here
    have hlast : c = '\\' → rest = [] := by
      intro hc
      cases rest with
      | nil => rfl
      | cons d rest => exact (hpair d rest hc rfl).elim
    rw [List.take_succ_cons, unescape_bare_cons fun hc => by simp [hlast hc],
      escape_bare_cons (head_unescape_take_ne hopens), ih]

theorem escape_unescape_quoted (cs : List Char) :
    escape quoted (unescape quoted (cs.take (Pattern.quotedRun cs))) =
      cs.take (Pattern.quotedRun cs) := by
  fun_induction Pattern.quotedRun cs with
  | case1 | case5 | case6 => rfl
  | case2 rest ih | case3 rest ih | case4 rest ih => simp [unescape, escape, ih]
  | case7 c rest _ _ _ hopens hplain ih =>
    obtain ⟨hbackslash, hquote⟩ : c ≠ '\\' ∧ c ≠ '"' := by simpa using hplain
    rw [List.take_succ_cons, unescape_quoted_cons hbackslash,
      escape_quoted_cons hquote hbackslash (head_unescape_take_ne hopens), ih]

/-- A run of text is what its text is written as. -/
theorem escape_unescape_run (q : Quoting) (cs : List Char) :
    q.escape (q.unescape (cs.take (q.run cs))) = cs.take (q.run cs) := by
  cases q with
  | quoted => exact escape_unescape_quoted cs
  | bare => exact escape_unescape_bare cs

theorem quotedRun_cons {c : Char} {cs : List Char} (hquote : c ≠ '"') (hbackslash : c ≠ '\\')
    (h : c = '#' → cs.head? ≠ some '\x7b') :
    Pattern.quotedRun (c :: cs) = Pattern.quotedRun cs + 1 := by
  rw [Pattern.quotedRun.eq_def]
  split <;> simp_all

/-- A hash that opens no interpolation opens none where its text is written. -/
theorem head_escape_append_ne {q : Quoting} {c : Char} {cs rest : List Char}
    (h : ∀ others, c = '#' → cs = '\x7b' :: others → False) (hrest : rest.head? ≠ some '\x7b')
    (hc : c = '#') : (q.escape cs ++ rest).head? ≠ some '\x7b' := by
  intro hhead
  rw [List.head?_append, Option.or_eq_some_iff] at hhead
  rcases hhead with hhead | ⟨-, hhead⟩
  · obtain ⟨others, hothers⟩ := List.head?_eq_some_iff.mp (head_escape hhead)
    exact h others hc hothers
  · exact hrest hhead

theorem unescape_escape (cs : List Char) : unescape quoted (escape quoted cs) = cs := by
  generalize hq : quoted = q
  fun_induction escape q cs with
  | case1 => rfl
  | case2 q rest ih => rw [unescape, ih hq]
  | case3 rest ih | case4 rest ih => rw [unescape, ih rfl]
  | case5 q c rest hopens hquote hbackslash ih =>
    subst hq
    rw [unescape_quoted_cons (hbackslash rfl), ih rfl]

/-- What a text is written as is one run, unless what follows goes on with it. -/
theorem quotedRun_escape (cs : List Char) {rest : List Char} (h : Pattern.quotedRun rest = 0)
    (hrest : rest.head? ≠ some '\x7b') :
    Pattern.quotedRun (escape quoted cs ++ rest) = (escape quoted cs).length := by
  generalize hq : quoted = q
  fun_induction escape q cs with
  | case1 => exact h
  | case2 q others ih => exact congrArg (· + 3) (ih hq)
  | case3 others ih | case4 others ih => exact congrArg (· + 2) (ih rfl)
  | case5 q c others hopens hquote hbackslash ih =>
    subst hq
    rw [List.cons_append, quotedRun_cons (hquote rfl) (hbackslash rfl)
      (head_escape_append_ne hopens hrest), ih rfl, List.length_cons]

theorem escape_ne_nil {q : Quoting} {cs : List Char} (h : cs ≠ []) : q.escape cs ≠ [] := by
  fun_cases escape q cs <;> simp_all

end Quoting

/-- A text or an expression between braces, as one part of a string after the other. -/
inductive Piece where
  | text (content : List Char)
  | insert (content : List Char)
  deriving DecidableEq, Repr

namespace Piece

def isText : Piece → Bool
  | text _ => true
  | insert _ => false

def write (q : Quoting) : Piece → List Char
  | text content => q.escape content
  | insert content => '#' :: '\x7b' :: (content ++ ['\x7d'])

/-- What pieces are written as between double quotes. -/
def writeQuoted (pieces : List Piece) : List Char :=
  '"' :: (pieces.flatMap (write .quoted) ++ ['"'])

end Piece

namespace Part

/-- What a part says, wherever it starts. -/
def piece : Part → Piece
  | text _ content => .text content
  | insert _ content => .insert content

/-- The pieces of a string. One without parts has an empty text. -/
def pieces (parts : List Part) : List Piece :=
  if parts.isEmpty then [.text []] else parts.map piece

theorem pieces_ne_nil (parts : List Part) : pieces parts ≠ [] := by
  cases parts <;> exact List.cons_ne_nil _ _

theorem write_pieces (q : Quoting) (parts : List Part) :
    (pieces parts).flatMap (Piece.write q) = (parts.map piece).flatMap (Piece.write q) := by
  cases parts with
  | nil => cases q <;> rfl
  | cons => rfl

/-- The parts of a text are written as they stand there, up to where they end. -/
theorem write_read (q : Quoting) (start : Int) (cs : List Char) : ∃ n ≤ cs.length,
    (read q start cs).2 = start + n ∧
      ((read q start cs).1.map piece).flatMap (Piece.write q) = cs.take n := by
  fun_induction read q start cs with
  | case1 start cs hn n parts stop heq ih =>
    rw [heq] at ih
    obtain ⟨m, hm, hstop, hwrite⟩ := ih
    have hle : n ≤ cs.length := q.run_le cs
    rw [List.length_drop] at hm
    refine ⟨n + m, by omega, by push_cast; omega, ?_⟩
    rw [List.map_cons, List.flatMap_cons, hwrite, List.take_add]
    exact congrArg (· ++ _) (q.escape_unescape_run cs)
  | case2 start cs hn n hs hlt parts stop heq ih =>
    rw [heq] at ih
    obtain ⟨m, hm, hstop, hwrite⟩ := ih
    rw [List.length_drop] at hm
    refine ⟨n + 1 + m, by omega, by push_cast; omega, ?_⟩
    rw [List.map_cons, List.flatMap_cons, hwrite, List.take_add]
    exact congrArg (· ++ _) (Scan.take_interpolation hs).symm
  | case3 => exact ⟨0, Nat.zero_le _, by simp, rfl⟩

section Equations
variable {q : Quoting} {start : Int} {cs : List Char}

theorem read_run (h : 0 < q.run cs) : read q start cs =
    (text start (q.unescape (cs.take (q.run cs))) ::
        (read q (start + q.run cs) (cs.drop (q.run cs))).1,
      (read q (start + q.run cs) (cs.drop (q.run cs))).2) := by
  rw [read, if_pos h]

theorem read_interpolation {n : Nat} (h : q.run cs = 0) (hs : Scan.interpolation cs = some n) :
    read q start cs =
      (insert (start + 2) ((cs.take n).drop 2) :: (read q (start + n + 1) (cs.drop (n + 1))).1,
        (read q (start + n + 1) (cs.drop (n + 1))).2) := by
  rw [read, if_neg (by omega)]
  split
  · rename_i m hm
    obtain rfl := Option.some.inj (hs.symm.trans hm)
    rfl
  · rename_i hnone
    cases hs.symm.trans hnone

theorem read_none (h : q.run cs = 0) (hs : Scan.interpolation cs = none) :
    read q start cs = ([], start) := by
  rw [read, if_neg (by omega)]
  split
  · rename_i m hm
    cases hs.symm.trans hm
  · rfl

end Equations

end Part

namespace Piece

/-- Pieces as a string is cut into them: no two texts stand next to each other, no text is empty
but one that is the whole string, and inserts hold what an interpolation may hold. -/
structure Apart (pieces : List Piece) : Prop where
  texts : pieces.IsChain fun a b => ¬ (a.isText ∧ b.isText)
  nonempty : .text [] ∈ pieces → pieces = [.text []]
  inserts : ∀ content, .insert content ∈ pieces → Scan.IsBody content

variable {pieces : List Piece}

/-- Before an insert, and before the end of the string, a run of text ends. -/
theorem quotedRun_eq_zero (after : List Char) (h : ∀ p ∈ pieces.head?, p.isText = false) :
    Pattern.quotedRun (pieces.flatMap (write .quoted) ++ '"' :: after) = 0 ∧
      (pieces.flatMap (write .quoted) ++ '"' :: after).head? ≠ some '\x7b' := by
  cases pieces with
  | nil => exact ⟨rfl, by simp⟩
  | cons p pieces =>
    have hp := h p rfl
    cases p with
    | text => cases hp
    | insert content => exact ⟨rfl, by simp [write]⟩

/-- The part that a piece is read as, with the parts of what follows it. -/
theorem read_text {content rest : List Char} (start : Int) (hne : content ≠ [])
    (hzero : Pattern.quotedRun rest = 0) (hhead : rest.head? ≠ some '\x7b') :
    Part.read .quoted start (write .quoted (text content) ++ rest) =
      let (parts, stop) := Part.read .quoted (start + (write .quoted (text content)).length) rest
      (.text start content :: parts, stop) := by
  have hrun : Quoting.quoted.run (write .quoted (text content) ++ rest) =
      (write .quoted (text content)).length := Quoting.quotedRun_escape content hzero hhead
  have hpos := List.length_pos_iff.mpr (Quoting.escape_ne_nil (q := .quoted) hne)
  rw [Part.read_run (by rwa [hrun]), hrun, List.take_left, List.drop_left, write,
    Quoting.unescape_escape]

theorem read_insert {content rest : List Char} (start : Int) (h : Scan.IsBody content) :
    Part.read .quoted start (write .quoted (insert content) ++ rest) =
      let (parts, stop) := Part.read .quoted (start + (write .quoted (insert content)).length) rest
      (.insert (start + 2) content :: parts, stop) := by
  have hsplit : write .quoted (insert content) ++ rest =
      '#' :: '\x7b' :: (content ++ '\x7d' :: rest) := by simp [write]
  have hlength : (write .quoted (insert content)).length = content.length + 2 + 1 := by simp [write]
  have hstart : start + ((content.length + 2 : Nat) : Int) + 1 =
      start + ((content.length + 2 + 1 : Nat) : Int) := by push_cast; omega
  rw [hsplit, Part.read_interpolation rfl (Scan.interpolation_body h rest), hlength, hstart]
  simp

/-- Pieces that are written between double quotes are read again, up to the closing quote. -/
theorem read_write (after : List Char) (start : Int)
    (htexts : pieces.IsChain fun a b => ¬ (a.isText ∧ b.isText)) (hne : .text [] ∉ pieces)
    (hinserts : ∀ content, .insert content ∈ pieces → Scan.IsBody content) :
    ∃ parts, Part.read .quoted start (pieces.flatMap (write .quoted) ++ '"' :: after) =
      (parts, start + (pieces.flatMap (write .quoted)).length) ∧ parts.map Part.piece = pieces := by
  induction pieces generalizing start with
  | nil => exact ⟨[], by rw [List.flatMap_nil, List.nil_append, Part.read_none rfl rfl]; simp, rfl⟩
  | cons p pieces ih =>
    obtain ⟨parts, hread, hpieces⟩ := ih (start + (write .quoted p).length) htexts.tail
      (fun h => hne (List.mem_cons_of_mem _ h)) fun c hc => hinserts c (List.mem_cons_of_mem _ hc)
    have hstop : start + (((p :: pieces).flatMap (write .quoted)).length : Int) =
        start + ((write .quoted p).length : Int) + (pieces.flatMap (write .quoted)).length := by
      rw [List.flatMap_cons, List.length_append]
      push_cast
      omega
    rw [hstop, List.flatMap_cons, List.append_assoc]
    cases p with
    | text content =>
      have hrest : ∀ p ∈ pieces.head?, p.isText = false := by
        intro p hp
        obtain ⟨others, rfl⟩ := List.head?_eq_some_iff.mp hp
        simpa [isText] using htexts.rel
      have hcontent : content ≠ [] := by
        rintro rfl
        exact hne List.mem_cons_self
      obtain ⟨hzero, hhead⟩ := quotedRun_eq_zero after hrest
      rw [read_text start hcontent hzero hhead, hread]
      exact ⟨_, rfl, congrArg (List.cons _) hpieces⟩
    | insert content =>
      rw [read_insert start (hinserts content List.mem_cons_self), hread]
      exact ⟨_, rfl, congrArg (List.cons _) hpieces⟩

/-- The pieces of a string are those that it was written with. -/
theorem pieces_read_write (after : List Char) (start : Int) (hne : pieces ≠ []) (h : Apart pieces) :
    ∃ parts, Part.read .quoted start (pieces.flatMap (write .quoted) ++ '"' :: after) =
      (parts, start + (pieces.flatMap (write .quoted)).length) ∧ Part.pieces parts = pieces := by
  by_cases hempty : .text [] ∈ pieces
  · rw [h.nonempty hempty]
    refine ⟨[], ?_, rfl⟩
    change Part.read .quoted start ('"' :: after) = ([], start + (0 : Nat))
    rw [Part.read_none rfl rfl, Int.natCast_zero, Int.add_zero]
  · obtain ⟨parts, hread, hparts⟩ := read_write after start h.texts hempty h.inserts
    refine ⟨parts, hread, ?_⟩
    cases parts with
    | nil => exact absurd hparts.symm hne
    | cons => exact hparts

end Piece

/-- The expression between the braces of an interpolation that was found. -/
theorem Scan.isBody_of_interpolation {cs : List Char} {n : Nat} (h : interpolation cs = some n) :
    IsBody ((cs.take n).drop 2) := by
  obtain ⟨body, k, rfl, rfl, hne, hbrace⟩ := interpolation_eq_some_iff.mp h
  have hlt := closingBrace_lt hbrace
  refine ⟨fun hnil => ?_, (closingBrace_eq_some_iff.mp hbrace).2⟩
  have hlength := congrArg List.length hnil
  simp only [List.length_drop, List.length_take, List.length_cons, List.length_nil] at hlength
  omega

namespace Part

@[simp] theorem isText_piece (p : Part) : p.piece.isText = p.isText := by
  cases p <;> rfl

theorem isBody_of_mem_read (q : Quoting) (start : Int) (cs : List Char) :
    ∀ content, .insert content ∈ (read q start cs).1.map piece → Scan.IsBody content := by
  fun_induction read q start cs with
  | case1 start cs hn n parts stop heq ih =>
    rw [heq] at ih
    intro content h
    rcases List.mem_cons.mp h with h | h
    · cases h
    · exact ih content h
  | case2 start cs hn n hs hlt parts stop heq ih =>
    rw [heq] at ih
    intro content h
    rcases List.mem_cons.mp h with h | h
    · obtain rfl := Piece.insert.inj h
      exact Scan.isBody_of_interpolation hs
    · exact ih content h
  | case3 =>
    intro content h
    cases h

/-- A string is cut into pieces that stand apart. -/
theorem apart_pieces_read (q : Quoting) (start : Int) (cs : List Char) :
    Piece.Apart (pieces (read q start cs).1) := by
  have hbodies := isBody_of_mem_read q start cs
  have hcontents : ∀ p ∈ (read q start cs).1, p.content ≠ [] := content_ne_nil_of_mem_read
  have hchain := (apart_read q start cs).1
  generalize (read q start cs).1 = parts at *
  cases parts with
  | nil => exact ⟨.singleton _, fun _ => rfl, fun _ h => by simp [pieces] at h⟩
  | cons p parts =>
    refine ⟨?_, fun h => ?_, hbodies⟩
    · exact (List.isChain_map _).mpr (hchain.imp fun a b hab => by simpa using hab)
    · obtain ⟨part, hmem, hpart⟩ := List.mem_map.mp h
      have hne := hcontents part hmem
      cases part with
      | text start content => exact absurd (Piece.text.inj hpart) hne
      | insert => cases hpart

end Part

end TemplateTree
