import TemplateTree.Proofs.Json.Tokens

/-!
# Documents read as they were written

A value within the limits of documents is written, in every layout, as a text that reads as the
value. The machine that reads the tokens of a value comes back to where it was before, with the
value.
-/

set_option autoImplicit false

namespace TemplateTree.Json

section Check
variable {depth : Nat} {v : Value}

theorem checkItems_ok {items : List Value} (h : ∀ item ∈ items, check depth item = .ok ()) :
    checkItems depth items = .ok () := by
  induction items with
  | nil => rfl
  | cons item items ih =>
    rw [checkItems, h item List.mem_cons_self]
    exact ih fun i hi => h i (List.mem_cons_of_mem item hi)

theorem checkFields_ok {fields : Value.Fields}
    (h : ∀ field ∈ fields, check depth field.2 = .ok ()) : checkFields depth fields = .ok () := by
  induction fields with
  | nil => rfl
  | cons field fields ih =>
    rw [checkFields, h field List.mem_cons_self]
    exact ih fun f hf => h f (List.mem_cons_of_mem field hf)

theorem Fits.check_ok (h : Fits depth v) : check depth v = .ok () := by
  induction h with
  | null | bool | str => rfl
  | int digits => rw [check, if_pos digits]
  | list room _ ih => rw [check, if_pos room, checkItems_ok ih]
  | object room _ _ _ ih => rw [check, if_pos room, checkFields_ok ih]

end Check

section Run
variable {rest : List Token} {frames : List Frame} {items : List Value}
  {fields : Value.Fields} {v : Value} {depth : Nat}

theorem put_of_new {fields : Value.Fields} {key : Str} (h : key ∉ fields.map Prod.fst) (v : Value) :
    Value.Fields.put fields key v = fields ++ [(key, v)] := by
  induction fields with
  | nil => rfl
  | cons field fields ih =>
    obtain ⟨k, w⟩ := field
    rw [List.map_cons, List.mem_cons, not_or] at h
    rw [Value.Fields.put, if_neg fun heq => h.1 heq.symm, ih h.2, List.cons_append]

theorem key_new {done : Value.Fields} {key : Str}
    (h : ((done ++ (key, v) :: fields).map Prod.fst).Nodup) : key ∉ done.map Prod.fst := by
  rw [List.map_append, List.nodup_append] at h
  exact fun hmem => h.2.2 key hmem key List.mem_cons_self rfl

/-- Where a value may stand. -/
def Expect.IsValue (e : Expect) : Prop := e = .value ∨ e = .valueOrClose

/-- The machine reads the value with so many lists and objects open, and goes on after it. -/
def RunsAs (depth : Nat) (v : Value) : Prop :=
  ∀ (e : Expect) (frames : List Frame) (rest : List Token), e.IsValue → frames.length = depth →
    run e frames (tokens v rest) = run (.separator v) frames rest

theorem run_itemTokens {done : List Value} (hframes : frames.length + 1 = depth)
    (h : ∀ item ∈ items, RunsAs depth item) :
    run (.separator v) (.items done :: frames) (itemTokens items (.closeList :: rest)) =
      run (.separator (.list (done.reverse ++ v :: items))) frames rest := by
  induction items generalizing v done with
  | nil => rw [itemTokens, run, List.reverse_cons]
  | cons item items ih =>
    have hitem := h item List.mem_cons_self
    rw [itemTokens, run, hitem .value (.items (v :: done) :: frames) _ (.inl rfl) hframes,
      ih fun i hi => h i (List.mem_cons_of_mem item hi), List.reverse_cons, List.append_assoc,
      List.singleton_append]

theorem run_next_field (done : Value.Fields) (key next : Str) :
    run (.separator v) (.field done key :: frames) (.comma :: .str next :: .colon :: rest) =
      run .value (.field (Value.Fields.put done key v) next :: frames) rest := rfl

theorem run_fieldTokens {done : Value.Fields} {key : Str} (hframes : frames.length + 1 = depth)
    (hkeys : ((done ++ (key, v) :: fields).map Prod.fst).Nodup)
    (h : ∀ field ∈ fields, RunsAs depth field.2) :
    run (.separator v) (.field done key :: frames) (fieldTokens fields (.closeObject :: rest)) =
      run (.separator (.object (done ++ (key, v) :: fields))) frames rest := by
  induction fields generalizing v done key with
  | nil =>
    have hput := put_of_new (key_new hkeys) v
    rw [fieldTokens, run, hput]
  | cons field fields ih =>
    obtain ⟨next, value⟩ := field
    have hput := put_of_new (key_new hkeys) v
    have hvalue : RunsAs depth value := h _ List.mem_cons_self
    rw [List.append_cons] at hkeys ⊢
    rw [fieldTokens, run_next_field, hput,
      hvalue .value (.field (done ++ [(key, v)]) next :: frames) _ (.inl rfl) hframes,
      ih hkeys fun f hf => h f (List.mem_cons_of_mem _ hf)]

theorem Fits.runsAs (h : Fits depth v) : RunsAs depth v := by
  induction h with
  | null | bool | int | str => rintro e frames rest (rfl | rfl) - <;> simp [tokens, run]
  | @list depth items room _ ih =>
    rintro e frames rest he rfl
    cases items with
    | nil => rcases he with rfl | rfl <;> simp [tokens, run, room]
    | cons item items =>
      -- Where the first item stands, the list could be closed as well.
      have hopen : run e frames (tokens (.list (item :: items)) rest) =
          run .valueOrClose (.items [] :: frames)
            (tokens item (itemTokens items (.closeList :: rest))) := by
        rcases he with rfl | rfl <;> simp [tokens, run, room]
      rw [hopen, ih item List.mem_cons_self .valueOrClose (.items [] :: frames) _ (.inr rfl) rfl,
        run_itemTokens rfl fun i hi => ih i (List.mem_cons_of_mem item hi)]
      rfl
  | @object depth fields room keys _ _ ih =>
    rintro e frames rest he rfl
    cases fields with
    | nil => rcases he with rfl | rfl <;> simp [tokens, run, room]
    | cons field fields =>
      obtain ⟨key, value⟩ := field
      have hopen : run e frames (tokens (.object ((key, value) :: fields)) rest) =
          run .value (.field [] key :: frames)
            (tokens value (fieldTokens fields (.closeObject :: rest))) := by
        rcases he with rfl | rfl <;> simp [tokens, run, room]
      have hvalue : RunsAs (frames.length + 1) value := ih _ List.mem_cons_self
      rw [hopen, hvalue .value (.field [] key :: frames) _ (.inl rfl) rfl,
        run_fieldTokens rfl keys fun f hf => ih f (List.mem_cons_of_mem _ hf)]
      rfl

theorem read_of_fits (h : Fits 0 v) (layout : Layout) :
    read (String.ofList (write layout 0 v [])) = .ok v := by
  have hcut := h.cutsAs layout 0 [] endsNumeral_nil
  have hnil : Token.ofChars [] = [] := by rw [Token.ofChars]
  rw [read, String.toList_ofList, hcut, hnil, h.runsAs .value [] [] (.inl rfl) rfl, run]

end Run

/-- A value within the limits is written, and its text reads as the value. -/
theorem exists_print {v : Value} (h : Fits 0 v) (layout : Layout) :
    ∃ text, print layout v = .ok text ∧ read text = .ok v := by
  refine ⟨_, ?_, read_of_fits h layout⟩
  rw [print, h.check_ok]
  rfl

end TemplateTree.Json
