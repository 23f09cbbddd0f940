import XmlHarvest.Proofs.Json.Printer
import XmlHarvest.Proofs.Json.Scalars
import XmlHarvest.Proofs.Text.Split

/-! # Writing and reading back

The text of a clean value is read back as the value with the texts that its texts are read
back as, whatever the layout; with all characters written out that is the value itself.  Each
part of the text is read up to its end, whatever follows it, so the texts of lists and maps are
read part by part. -/
set_option autoImplicit false

namespace XmlHarvest.Json

/-! ## Parts of lists and maps -/

section Parts

variable {f : CodePoint → Text} {g : Text → Text} {l : Layout} {depth : Nat} {ws : Text}

theorem blank_lineStart (hf : Spelling f g) (l : Layout) (depth : Nat) :
    Blank (spelled f (l.lineStart depth)) := by
  cases l with
  | compact => simp [Blank, Layout.lineStart, spelled]
  | indented width =>
    have hchars : ∀ c ∈ ('\n' :: List.replicate (width * depth) (.char ' ') : Text),
        c = '\n' ∨ c = ' ' := by
      intro c hc
      exact (List.mem_cons.mp hc).imp_right List.eq_of_mem_replicate
    have hascii : Ascii ('\n' :: List.replicate (width * depth) (.char ' ')) := by
      intro c hc
      obtain rfl | rfl := hchars c hc <;> decide
    rw [Layout.lineStart, spelled_ascii hf _ hascii]
    intro c hc
    obtain rfl | rfl := hchars c hc <;> rfl

theorem spelled_separator (hf : Spelling f g) (l : Layout) (depth : Nat) :
    ∃ ws, Blank ws ∧ spelled f (l.separator depth) = .char ',' :: ws := by
  cases l with
  | compact => exact ⟨[' '], by simp [Blank, isSpace], spelled_ascii hf [',', ' '] (by decide)⟩
  | indented width =>
    have hcomma : spelled f "," = [','] := spelled_ascii hf [','] (by decide)
    refine ⟨_, blank_lineStart hf (.indented width) depth, ?_⟩
    rw [Layout.separator, spelled_append, hcomma]
    rfl

def joined (f : CodePoint → Text) (l : Layout) (depth : Nat) (texts : List Text) : Text :=
  spelled f (Text.joinWith (l.separator depth) texts)

theorem joined_singleton {t : Text} : joined f l depth [t] = spelled f t := by
  rfl

theorem joined_cons_cons (hf : Spelling f g) (l : Layout) (depth : Nat) (t t' : Text)
    (texts : List Text) : ∃ ws, Blank ws ∧ joined f l depth (t :: t' :: texts) =
      spelled f t ++ .char ',' :: (ws ++ joined f l depth (t' :: texts)) := by
  obtain ⟨ws, hws, hseparator⟩ := spelled_separator hf l depth
  refine ⟨ws, hws, ?_⟩
  rw [joined, Text.joinWith_cons_cons, spelled_append, spelled_append, hseparator, List.append_assoc,
    List.cons_append]
  rfl

theorem begins_joined (l : Layout) (depth : Nat) {t : Text} (h : Begins (spelled f t))
    (texts : List Text) : Begins (joined f l depth (t :: texts)) := by
  cases texts with
  | nil =>
    rw [joined_singleton]
    exact h
  | cons t' texts =>
    rw [joined, Text.joinWith_cons_cons, List.append_assoc, spelled_append]
    exact h.append _

variable {α : Type} {opening closing : CodePoint}
  {loop : Nat → Text → Except ReadFault (List α × Text)} {make : List α → Value}

/-- What is done after a part: nothing more at the closing bracket, and the next part behind
a comma. -/
def afterPart (closing : CodePoint) (next : Text → Except ReadFault (List α × Text)) (a : α)
    (rest : Text) : Except ReadFault (List α × Text) :=
  match skipSpace rest with
  | [] => .error .malformed
  | c :: more =>
    if c = closing then .ok ([a], more)
    else if c = ',' then next (skipSpace more) >>= fun p => .ok (a :: p.1, p.2)
    else .error .malformed

section AfterPart

variable {next : Text → Except ReadFault (List α × Text)} {a : α} {rest more : Text}

theorem afterPart_closing (h : skipSpace rest = closing :: more) :
    afterPart closing next a rest = .ok ([a], more) := by
  rw [afterPart, h]
  exact if_pos rfl

theorem afterPart_comma (hne : ',' ≠ closing) (h : skipSpace rest = .char ',' :: more) :
    afterPart closing next a rest = next (skipSpace more) >>= fun p => .ok (a :: p.1, p.2) := by
  rw [afterPart, h]
  exact (if_neg hne).trans (if_pos rfl)

theorem afterPart_other (hclosing : ∀ more, skipSpace rest = closing :: more → False)
    (hcomma : ∀ more, skipSpace rest = .char ',' :: more → False) :
    afterPart closing next a rest = .error .malformed := by
  cases h : skipSpace rest with
  | nil => rw [afterPart, h]
  | cons c more =>
    have hc : c ≠ closing := fun heq => hclosing more (heq ▸ h)
    have hc' : c ≠ ',' := fun heq => hcomma more (heq ▸ h)
    rw [afterPart, h]
    exact (if_neg hc).trans (if_neg hc')

end AfterPart

/-- A loop over parts reads a text as one of them, and goes on after it. -/
structure ReadsPart (closing : CodePoint) (loop : Nat → Text → Except ReadFault (List α × Text))
    (cs : Text) (a : α) : Prop where
  begins : Begins cs
  reads : ∀ fuel rest, cs.length ≤ fuel → EndsNumber rest →
    loop (fuel + 1) (cs ++ rest) = afterPart closing (loop fuel) a rest

/-- What a list or a map does between its brackets: it reads parts in a loop, if there are any. -/
structure Brackets (opening closing : CodePoint)
    (loop : Nat → Text → Except ReadFault (List α × Text)) (make : List α → Value) :
    Prop where
  pair : (opening = '[' ∧ closing = ']') ∨ (opening = '\x7b' ∧ closing = '\x7d')
  empty : ∀ fuel rest, value (fuel + 1) (opening :: closing :: rest) = .ok (make [], rest)
  parts : ∀ fuel cs, Begins (skipSpace cs) →
    value (fuel + 1) (opening :: cs) = loop fuel (skipSpace cs) >>= fun p => .ok (make p.1, p.2)

theorem Brackets.parts_read (hf : Spelling f g) (hbrackets : Brackets opening closing loop make)
    {texts : List Text} {as : List α}
    (hread : List.Forall₂ (fun t a => ReadsPart closing loop (spelled f t) a) texts as)
    (hne : texts ≠ []) (hws : Blank ws) (rest : Text) {fuel : Nat}
    (hfuel : (joined f l depth texts).length < fuel) :
    loop fuel (joined f l depth texts ++ (ws ++ closing :: rest)) = .ok (as, rest) := by
  have hclosing : isSpace closing = false ∧ ',' ≠ closing ∧ (closing = ']' ∨ closing = '\x7d') := by
    obtain ⟨-, rfl⟩ | ⟨-, rfl⟩ := hbrackets.pair <;> decide
  obtain ⟨hspace, hcomma, hbracket⟩ := hclosing
  induction hread generalizing fuel with
  | nil => exact absurd rfl hne
  | @cons t a texts as hfirst hrest ih =>
    obtain ⟨fuel, rfl⟩ := Nat.exists_eq_succ_of_ne_zero (Nat.ne_of_gt (Nat.zero_lt_of_lt hfuel))
    cases hrest with
    | nil =>
      have hend : EndsNumber (ws ++ closing :: rest) :=
        endsNumber_of_blank hws (endsNumber_cons (.inr hbracket))
      rw [joined_singleton] at hfuel ⊢
      rw [Nat.succ_eq_add_one, hfirst.reads fuel _ (by omega) hend]
      exact afterPart_closing (skipSpace_append hws hspace rest)
    | @cons t' a' texts as hsecond hothers =>
      obtain ⟨between, hbetween, htext⟩ := joined_cons_cons hf l depth t t' texts
      rw [htext] at hfuel ⊢
      simp only [List.length_append, List.length_cons] at hfuel
      have hlength : (joined f l depth (t' :: texts)).length < fuel := by omega
      have hnext := ih (List.cons_ne_nil t' texts) hlength
      -- the next part begins where the white space after the comma ends
      have hfound := (begins_joined l depth hsecond.begins texts).append (ws ++ closing :: rest)
      have hskip := hfound.skipSpace hbetween
      rw [List.append_assoc, List.cons_append, List.append_assoc, Nat.succ_eq_add_one,
        hfirst.reads fuel _ (by omega) (endsNumber_cons (.inl rfl)),
        afterPart_comma hcomma (skipSpace_cons rfl), hskip, hnext]
      rfl

theorem spelled_enclose (hf : Spelling f g) (l : Layout) (depth : Nat)
    (hopening : opening.toNat < 127) (hclosing : closing.toNat < 127) (t : Text) (texts : List Text) :
    spelled f (l.enclose ([opening]) ([closing]) depth (t :: texts)) =
      opening :: (spelled f (l.lineStart (depth + 1)) ++ (joined f l (depth + 1) (t :: texts) ++
        (spelled f (l.lineStart depth) ++ [closing]))) := by
  have hnone : Ascii [] := by decide
  unfold Layout.enclose
  dsimp only
  rw [spelled_append, spelled_append, spelled_append, spelled_append,
    spelled_ascii hf [opening] (hnone.cons hopening), spelled_ascii hf [closing] (hnone.cons hclosing)]
  simp only [List.append_assoc, List.cons_append, List.nil_append]
  rfl

/-- A list or a map is read as what its parts make. -/
theorem Brackets.reads (hf : Spelling f g) (hbrackets : Brackets opening closing loop make)
    {texts : List Text} {as : List α}
    (hread : List.Forall₂ (fun t a => ReadsPart closing loop (spelled f t) a) texts as) :
    ReadsAs (spelled f (l.enclose ([opening]) ([closing]) depth texts))
      (make as) := by
  have hpair : (opening.toNat < 127 ∧ closing.toNat < 127) ∧
      isSpace opening = false ∧ opening ≠ ']' ∧ opening ≠ '\x7d' := by
    obtain ⟨rfl, rfl⟩ | ⟨rfl, rfl⟩ := hbrackets.pair <;> decide
  obtain ⟨⟨hopening, hclosing⟩, hbegins⟩ := hpair
  cases hread with
  | nil =>
    have hnone : Ascii [] := by decide
    have htext : spelled f (l.enclose ([opening]) ([closing]) depth []) =
        [opening, closing] := by
      rw [Layout.enclose, spelled_append, spelled_ascii hf _ (hnone.cons hopening),
        spelled_ascii hf _ (hnone.cons hclosing)]
      rfl
    rw [htext]
    exact .of_step ⟨opening, [closing], rfl, hbegins⟩ fun fuel rest _ _ => hbrackets.empty fuel rest
  | @cons t a texts as hfirst hrest =>
    have htext := spelled_enclose hf l depth hopening hclosing t texts
    refine .of_step ⟨opening, _, htext, hbegins⟩ ?_
    intro fuel rest hfuel _
    rw [htext] at hfuel ⊢
    simp only [List.length_cons, List.length_append] at hfuel
    have hlength : (joined f l (depth + 1) (t :: texts)).length < fuel := by omega
    have hparts := hbrackets.parts_read hf (.cons hfirst hrest) (List.cons_ne_nil t texts)
      (blank_lineStart hf l depth) rest hlength
    have hfound := (begins_joined l (depth + 1) hfirst.begins texts).append
      (spelled f (l.lineStart depth) ++ closing :: rest)
    have hskip := hfound.skipSpace (blank_lineStart hf l (depth + 1))
    simp only [List.cons_append, List.append_assoc, List.nil_append]
    rw [hbrackets.parts fuel _ (by rw [hskip]; exact hfound), hskip, hparts]
    rfl

end Parts

/-! ## Lists -/

section Lists

variable {f : CodePoint → Text} {g : Text → Text} {l : Layout} {depth : Nat}

theorem brackets_list : Brackets '[' ']' items .list where
  pair := .inl ⟨rfl, rfl⟩
  empty _ _ := rfl
  parts fuel cs hbegins := by
    obtain ⟨c, tail, hcons, -, hc, -⟩ := hbegins
    rw [value, hcons]
    split
    · rename_i heq
      cases heq
      exact absurd rfl hc
    · rfl

theorem ReadsAs.item {cs : Text} {v : Value} (h : ReadsAs cs v) : ReadsPart ']' items cs v where
  begins := h.begins
  reads fuel rest hfuel hrest := by
    rw [items, h.reads fuel rest hfuel hrest]
    simp only [bind, Except.bind]
    split
    · exact (afterPart_closing ‹_›).symm
    · exact (afterPart_comma (by decide) ‹_›).symm
    · exact (afterPart_other ‹_› ‹_›).symm

theorem list_reads (hf : Spelling f g) {texts : List Text} {vs : List Value}
    (hread : List.Forall₂ (fun t v => ReadsAs (spelled f t) v) texts vs) :
    ReadsAs (spelled f (l.enclose "[" "]" depth texts)) (.list vs) :=
  brackets_list.reads hf (hread.imp fun _ _ => ReadsAs.item)

end Lists

/-! ## Maps -/

section Maps

variable {f : CodePoint → Text} {g : Text → Text} {l : Layout} {depth : Nat}

theorem brackets_map : Brackets '\x7b' '\x7d' members .ofEntries where
  pair := .inr ⟨rfl, rfl⟩
  empty _ _ := rfl
  parts fuel cs hbegins := by
    obtain ⟨c, tail, hcons, -, -, hc⟩ := hbegins
    rw [value, hcons]
    split
    · rename_i heq
      cases heq
      exact absurd rfl hc
    · rfl

def MemberText (f : CodePoint → Text) (g : Text → Text) (t : Text) (e : Scalar × Value) : Prop :=
  ∃ name text, e.1 = .str (g name) ∧ t = quoted name ++ ": " ++ text ∧
    ReadsAs (spelled f text) e.2

theorem spelled_member (hf : Spelling f g) (name text : Text) :
    spelled f (quoted name ++ ": " ++ text) =
      spelled f (quoted name) ++ (':' :: ' ' :: spelled f text : Text) := by
  have hcolon : spelled f ": " = [':', ' '] := spelled_ascii hf [':', ' '] (by decide)
  rw [spelled_append, spelled_append, hcolon, List.append_assoc]
  rfl

theorem MemberText.part (hf : Spelling f g) {t : Text} {e : Scalar × Value}
    (h : MemberText f g t e) : ReadsPart '\x7d' members (spelled f t) e := by
  obtain ⟨k, v⟩ := e
  obtain ⟨name, text, hkey, rfl, hvalue⟩ := h
  dsimp only at hkey hvalue
  subst hkey
  rw [spelled_member hf]
  refine ⟨(begins_quoted hf name).append _, ?_⟩
  intro fuel rest hfuel hrest
  obtain ⟨body, hbody, hstring⟩ := string_quoted hf name (':' :: ' ' :: (spelled f text ++ rest))
  have hspace : Blank [' '] := by simp [Blank, isSpace]
  have hskip := (hvalue.begins.append rest).skipSpace hspace
  rw [List.singleton_append] at hskip
  simp only [List.length_append, List.length_cons] at hfuel
  rw [List.append_assoc, List.cons_append, List.cons_append, hbody, members, hstring]
  simp only [bind, Except.bind, skipSpace_cons (c := ':') rfl, hskip,
    hvalue.reads fuel rest (by omega) hrest]
  split
  · exact (afterPart_closing ‹_›).symm
  · exact (afterPart_comma (by decide) ‹_›).symm
  · exact (afterPart_other ‹_› ‹_›).symm

theorem map_reads (hf : Spelling f g) {texts : List Text} {entries : List (Scalar × Value)}
    (hread : List.Forall₂ (MemberText f g) texts entries) :
    ReadsAs (spelled f (l.enclose "\x7b" "\x7d" depth texts)) (.ofEntries entries) :=
  brackets_map.reads hf (hread.imp fun _ _ => MemberText.part hf)

end Maps

/-! ## Values -/

section Values

variable {f : CodePoint → Text} {g : Text → Text}

mutual

theorem valueText_reads (hf : Spelling f g) (l : Layout) (depth : Nat) (v : Value) (hclean : v.Clean)
    {text : Text} (h : valueText l depth v = .ok text) :
    ReadsAs (spelled f text) (v.mapTexts g) := by
  cases v with
  | scalar s => exact scalar_reads hf (Value.clean_scalar.mp hclean) h
  | list items =>
    rw [valueText] at h
    obtain ⟨texts, htexts, h⟩ := (Outcome.bind_eq_ok _ _ _).mp h
    cases h
    exact list_reads hf (itemTexts_read hf l (depth + 1) items (Value.clean_list.mp hclean) htexts)
  | map entries =>
    rw [valueText] at h
    obtain ⟨texts, htexts, h⟩ := (Outcome.bind_eq_ok _ _ _).mp h
    cases h
    obtain ⟨hkeys, -, heach⟩ := Value.clean_map.mp hclean
    exact map_reads hf (memberTexts_read hf l (depth + 1) entries hkeys heach htexts)

theorem itemTexts_read (hf : Spelling f g) (l : Layout) (depth : Nat) (items : List Value)
    (hclean : ∀ v ∈ items, v.Clean) {texts : List Text} (h : itemTexts l depth items = .ok texts) :
    List.Forall₂ (fun t v => ReadsAs (spelled f t) v) texts (Value.mapItems g items) := by
  cases items with
  | nil =>
    cases h
    exact .nil
  | cons v rest =>
    rw [itemTexts] at h
    obtain ⟨first, hfirst, h⟩ := (Outcome.bind_eq_ok _ _ _).mp h
    obtain ⟨others, hothers, h⟩ := (Outcome.bind_eq_ok _ _ _).mp h
    cases h
    exact .cons (valueText_reads hf l depth v (hclean v (by simp)) hfirst)
      (itemTexts_read hf l depth rest (fun w hw => hclean w (by simp [hw])) hothers)

theorem memberTexts_read (hf : Spelling f g) (l : Layout) (depth : Nat)
    (entries : List (Scalar × Value)) (hkeys : TextKeys entries)
    (hclean : ∀ e ∈ entries, e.2.Clean) {texts : List Text}
    (h : memberTexts l depth entries = .ok texts) :
    List.Forall₂ (MemberText f g) texts (Value.mapMembers g entries) := by
  cases entries with
  | nil =>
    cases h
    exact .nil
  | cons e rest =>
    obtain ⟨k, v⟩ := e
    obtain ⟨name, hname⟩ := hkeys (k, v) (by simp)
    dsimp only at hname
    subst hname
    rw [memberTexts] at h
    obtain ⟨key, hkey, h⟩ := (Outcome.bind_eq_ok _ _ _).mp h
    obtain ⟨text, htext, h⟩ := (Outcome.bind_eq_ok _ _ _).mp h
    obtain ⟨others, hothers, h⟩ := (Outcome.bind_eq_ok _ _ _).mp h
    cases hkey
    cases h
    have hread := valueText_reads hf l depth v (hclean (.str name, v) (by simp)) htext
    exact .cons ⟨name, text, rfl, rfl, hread⟩
      (memberTexts_read hf l depth rest (fun e he => hkeys e (by simp [he]))
        (fun e he => hclean e (by simp [he])) hothers)

end

theorem read_eq_ok {cs : Text} {v : Value} (h : ReadsAs cs v) : read cs = .ok v := by
  have hnone : Blank [] := by simp [Blank]
  have hskip : skipSpace cs = cs := h.begins.skipSpace hnone
  have hvalue := h.reads (cs.length + 1) [] (by omega) (fun c hc => by simp at hc)
  rw [List.append_nil] at hvalue
  rw [read, hskip, hvalue]
  rfl

theorem printable_of_clean {v : Value} (h : v.Clean) : v.Printable := by
  intro s hs
  have hclean := h.of_holds hs
  cases s with
  | int i => exact hclean
  | time t => exact hclean
  | null | bool | float | str => trivial

/-- A clean value is written, and its text is read back as the value with the texts that its
own are read back as. -/
theorem exists_text_read (hf : Spelling f g) (l : Layout) {v : Value} (hclean : v.Clean) :
    ∃ t, text l v = .ok t ∧ read (spelled f t) = .ok (v.mapTexts g) := by
  obtain ⟨t, ht⟩ := (exists_valueText l 0 v).mpr (printable_of_clean hclean)
  exact ⟨t, ht, read_eq_ok (valueText_reads hf l 0 v hclean ht)⟩

end Values

end XmlHarvest.Json
