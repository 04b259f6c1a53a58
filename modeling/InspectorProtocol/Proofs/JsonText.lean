import InspectorProtocol.Proofs.NumberTexts

/-!
# Values are read back from their text

The lexer goes from one resting place to the next over the text of a value, and over a string
character by character. The tokens of a value take the assembly from a place where a value may stand
to the place behind it. A number comes back as what its text is read as, which for a double need not
be the same.
-/

namespace InspectorProtocol.Json

/-- Whether there is no number in a value. -/
def numberFree : Json → Bool
  | .number _ => false
  | .array items => freeItems items
  | .object members => freeMembers members
  | _ => true
where
  freeItems : List Json → Bool
    | [] => true
    | item :: rest => item.numberFree && freeItems rest
  freeMembers : List (String × Json) → Bool
    | [] => true
    | (_, value) :: rest => value.numberFree && freeMembers rest

/-- The document that the text of a value is read as. -/
def reread : Json → Document
  | .null => .null
  | .bool value => .bool value
  | .number value => .number value.again
  | .string value => .string (some value)
  | .array items => .array (rereadItems items) true
  | .object members => .object (rereadMembers members) true
where
  rereadItems : List Json → List Document
    | [] => []
    | item :: rest => item.reread :: rereadItems rest
  rereadMembers : List (String × Json) → List (Option String × Document)
    | [] => []
    | (name, value) :: rest => (some name, value.reread) :: rereadMembers rest

/-- The tokens a value is written with. -/
def spelled : Json → List Token
  | .null => [.null]
  | .bool value => [.bool value]
  | .number value => [.number value.again]
  | .string value => [.string (some value)]
  | .array items => .beginArray :: spelledItems items ++ [.endArray]
  | .object members => .beginObject :: spelledMembers members ++ [.endObject]
where
  spelledItems : List Json → List Token
    | [] => []
    | [item] => item.spelled
    | item :: rest => item.spelled ++ .comma :: spelledItems rest
  spelledMembers : List (String × Json) → List Token
    | [] => []
    | [(name, value)] => .string (some name) :: .colon :: value.spelled
    | (name, value) :: rest =>
      .string (some name) :: .colon :: value.spelled ++ .comma :: spelledMembers rest

/-! ### Characters to tokens -/

section Lexing

variable {tokens : List Token} {chars : List Char}

/-- The lexer inside a string without loose surrogates. -/
def inString (tokens : List Token) (chars : List Char) : Lexer :=
  ⟨tokens, .string ⟨chars, none, true⟩⟩

lemma foldl_escapeChar (c : Char) :
    (escapeChar c).foldl Lexer.step (inString tokens chars) = inString tokens (c :: chars) := by
  by_cases hquote : c = '"'
  · subst hquote
    rfl
  by_cases hslash : c = '\\'
  · subst hslash
    rfl
  by_cases hcontrol : c.toNat < 32
  · have hc : Char.ofNat c.toNat = c := Char.ofNat_toNat c
    rw [← hc]
    generalize c.toNat = n at hcontrol
    interval_cases n <;> rfl
  · have hplain : escapeChar c = [c] := by
      rw [escapeChar, if_neg hquote, if_neg hslash, if_neg hcontrol]
    rw [hplain, List.foldl_cons, List.foldl_nil, inString, Lexer.step]
    simp only [hquote, hslash, hcontrol, if_false]
    rfl

lemma foldl_escapeChars (cs : List Char) :
    (escapeChars cs).foldl Lexer.step (inString tokens chars) =
      inString tokens (cs.reverse ++ chars) := by
  induction cs generalizing chars with
  | nil => rfl
  | cons c rest ih =>
    have hsplit : escapeChars (c :: rest) = escapeChar c ++ escapeChars rest := rfl
    rw [hsplit, List.foldl_append, foldl_escapeChar, ih, List.reverse_cons, List.append_assoc]
    rfl

lemma foldl_quoteChars (s : String) :
    (quoteChars s).foldl Lexer.step ⟨tokens, .between⟩ =
      ⟨.string (some s) :: tokens, .between⟩ := by
  have hopen : Lexer.step ⟨tokens, .between⟩ '"' = inString tokens [] := rfl
  have hclose : Lexer.step (inString tokens (s.toList.reverse ++ [])) '"' =
      ⟨.string (some s) :: tokens, .between⟩ := by
    simp [inString, Lexer.step, Lexer.emit, StringText.value?]
  rw [quoteChars, List.cons_append, List.foldl_cons, List.foldl_append, hopen, foldl_escapeChars,
    List.foldl_cons, hclose, List.foldl_nil]

lemma atRest_renderMember (name : String) {value : Json}
    (hvalue : ∀ tokens, AtRest (value.spelled.reverse ++ tokens)
      (value.render.foldl Lexer.step ⟨tokens, .between⟩)) :
    AtRest (value.spelled.reverse ++ .colon :: .string (some name) :: tokens)
      ((quoteChars name ++ ':' :: value.render).foldl Lexer.step ⟨tokens, .between⟩) := by
  have hcolon : Lexer.step ⟨.string (some name) :: tokens, .between⟩ ':' =
    ⟨.colon :: .string (some name) :: tokens, .between⟩ := rfl
  rw [List.foldl_append, foldl_quoteChars, List.foldl_cons, hcolon]
  exact hvalue _

lemma foldl_comma {l : Lexer} (h : AtRest tokens l) (rest : List Char) :
    (',' :: rest).foldl Lexer.step l = rest.foldl Lexer.step ⟨.comma :: tokens, .between⟩ := by
  rw [List.foldl_cons, h.step (by simp)]
  rfl

end Lexing

mutual

lemma atRest_render (tokens : List Token) (v : Json) :
    AtRest (v.spelled.reverse ++ tokens) (v.render.foldl Lexer.step ⟨tokens, .between⟩) := by
  cases v with
  | null => exact .between
  | bool value => cases value <;> exact .between
  | number value => exact value.atRest_text tokens
  | string value =>
    have htext : render (.string value) = quoteChars value := rfl
    rw [htext, foldl_quoteChars]
    exact .between
  | array items =>
    have hitems := atRest_renderItems (.beginArray :: tokens) items
    have htext : render (.array items) = '[' :: render.renderItems items ++ [']'] := rfl
    have hopen : Lexer.step ⟨tokens, .between⟩ '[' = ⟨.beginArray :: tokens, .between⟩ := rfl
    rw [htext, List.cons_append, List.foldl_cons, List.foldl_append, hopen, List.foldl_cons,
      hitems.step (by simp), List.foldl_nil, spelled]
    simp only [List.reverse_append, List.reverse_cons, List.reverse_nil, List.nil_append,
      List.cons_append, List.append_assoc]
    exact .between
  | object members =>
    have hmembers := atRest_renderMembers (.beginObject :: tokens) members
    have htext : render (.object members) = '{' :: render.renderMembers members ++ ['}'] := rfl
    have hopen : Lexer.step ⟨tokens, .between⟩ '{' = ⟨.beginObject :: tokens, .between⟩ := rfl
    rw [htext, List.cons_append, List.foldl_cons, List.foldl_append, hopen, List.foldl_cons,
      hmembers.step (by simp), List.foldl_nil, spelled]
    simp only [List.reverse_append, List.reverse_cons, List.reverse_nil, List.nil_append,
      List.cons_append, List.append_assoc]
    exact .between

lemma atRest_renderItems (tokens : List Token) (items : List Json) :
    AtRest ((spelled.spelledItems items).reverse ++ tokens)
      ((render.renderItems items).foldl Lexer.step ⟨tokens, .between⟩) := by
  match items with
  | [] => exact .between
  | [item] => exact atRest_render tokens item
  | item :: next :: rest =>
    have hrest := atRest_renderItems (.comma :: (item.spelled.reverse ++ tokens)) (next :: rest)
    have htext : render.renderItems (item :: next :: rest) =
        item.render ++ ',' :: render.renderItems (next :: rest) := rfl
    have htokens : spelled.spelledItems (item :: next :: rest) =
        item.spelled ++ .comma :: spelled.spelledItems (next :: rest) := rfl
    rw [htext, htokens, List.foldl_append, foldl_comma (atRest_render tokens item)]
    simpa using hrest

lemma atRest_renderMembers (tokens : List Token) (members : List (String × Json)) :
    AtRest ((spelled.spelledMembers members).reverse ++ tokens)
      ((render.renderMembers members).foldl Lexer.step ⟨tokens, .between⟩) := by
  match members with
  | [] => exact .between
  | [(name, value)] =>
    have hvalue := fun tokens => atRest_render tokens value
    rw [render.renderMembers, spelled.spelledMembers]
    simpa using atRest_renderMember name hvalue
  | (name, value) :: next :: rest =>
    have hvalue := fun tokens => atRest_render tokens value
    have hrest := atRest_renderMembers
      (.comma :: (value.spelled.reverse ++ .colon :: .string (some name) :: tokens)) (next :: rest)
    have htext : render.renderMembers ((name, value) :: next :: rest) =
        (quoteChars name ++ ':' :: value.render) ++
          ',' :: render.renderMembers (next :: rest) := rfl
    have htokens : spelled.spelledMembers ((name, value) :: next :: rest) =
        .string (some name) :: .colon :: value.spelled ++
          .comma :: spelled.spelledMembers (next :: rest) := rfl
    rw [htext, htokens, List.foldl_append, foldl_comma (atRest_renderMember name hvalue)]
    simpa using hrest

end

/-! ### Tokens to documents -/

namespace Assembly

lemma put_await (parts : List OpenPart) (await await' : Await) (root : Document) (trailing : Bool)
    (d : Document) :
    put ⟨parts, await, root, trailing⟩ d = put ⟨parts, await', root, trailing⟩ d := by
  cases parts with
  | nil => rfl
  | cons part outer => cases part <;> rfl

/-- Where a value may stand, every token begins one but the end of an array. -/
lemma step_value {a : Assembly} {token : Token} (h : a.await = .value ∨ a.await = .firstItem)
    (htoken : token ≠ .endArray) : a.step token = a.takeValue token := by
  unfold step
  rcases h with h | h
  · rw [h]
  · rw [h]
    simp only
    split
    · exact absurd rfl htoken
    · rfl

lemma foldl_member {name : String} {value : Json} (before : Option String)
    (done : List (Option String × Document)) (outer : List OpenPart) (root : Document)
    (trailing : Bool) {await : Await} (h : await = .firstName ∨ await = .name)
    (hvalue : ∀ {a : Assembly}, a.await = .value ∨ a.await = .firstItem →
      value.spelled.foldl step a = a.put value.reread) :
    (Token.string (some name) :: .colon :: value.spelled).foldl step
        ⟨.object done before :: outer, await, root, trailing⟩ =
      ⟨.object ((some name, value.reread) :: done) none :: outer, .separator, root,
        trailing⟩ := by
  have hname : step ⟨.object done before :: outer, await, root, trailing⟩
      (.string (some name)) = ⟨.object done (some name) :: outer, .colon, root, trailing⟩ := by
    rcases h with rfl | rfl <;> rfl
  have hcolon : step ⟨.object done (some name) :: outer, .colon, root, trailing⟩ .colon =
      ⟨.object done (some name) :: outer, .value, root, trailing⟩ := rfl
  rw [List.foldl_cons, hname, List.foldl_cons, hcolon, hvalue (.inl rfl)]
  rfl

end Assembly

mutual

/-- Where a value may stand, its tokens put it there. -/
lemma foldl_spelled (v : Json) {a : Assembly} (h : a.await = .value ∨ a.await = .firstItem) :
    v.spelled.foldl Assembly.step a = a.put v.reread := by
  obtain ⟨parts, await, root, trailing⟩ := a
  match v with
  | .null | .bool _ | .number _ | .string _ =>
    rw [spelled, List.foldl_cons, List.foldl_nil, Assembly.step_value h (by simp)]
    rfl
  | .array items =>
    have hbegin : Assembly.takeValue ⟨parts, await, root, trailing⟩ .beginArray =
        ⟨.array [] :: parts, .firstItem, root, trailing⟩ := rfl
    rw [spelled, List.cons_append, List.foldl_cons, Assembly.step_value h (by simp), hbegin,
      List.foldl_append]
    by_cases hempty : items = []
    · subst hempty
      exact Assembly.put_await parts _ _ root trailing _
    · have hitems := foldl_spelledItems items hempty [] parts root trailing (.inr rfl)
      have hend : ∀ items,
          Assembly.step ⟨.array items :: parts, .separator, root, trailing⟩ .endArray =
            Assembly.put ⟨parts, .separator, root, trailing⟩ (.array items.reverse true) :=
        fun _ => rfl
      rw [hitems, List.foldl_cons, hend, List.foldl_nil, List.append_nil, List.reverse_reverse]
      exact Assembly.put_await parts _ _ root trailing _
  | .object members =>
    have hbegin : Assembly.takeValue ⟨parts, await, root, trailing⟩ .beginObject =
        ⟨.object [] none :: parts, .firstName, root, trailing⟩ := rfl
    rw [spelled, List.cons_append, List.foldl_cons, Assembly.step_value h (by simp), hbegin,
      List.foldl_append]
    by_cases hempty : members = []
    · subst hempty
      exact Assembly.put_await parts _ _ root trailing _
    · have hmembers := foldl_spelledMembers members hempty none [] parts root trailing (.inl rfl)
      have hend : ∀ members,
          Assembly.step ⟨.object members none :: parts, .separator, root, trailing⟩ .endObject =
            Assembly.put ⟨parts, .separator, root, trailing⟩ (.object members.reverse true) :=
        fun _ => rfl
      rw [hmembers, List.foldl_cons, hend, List.foldl_nil, List.append_nil, List.reverse_reverse]
      exact Assembly.put_await parts _ _ root trailing _

lemma foldl_spelledItems (items : List Json) (hne : items ≠ []) (done : List Document)
    (outer : List OpenPart) (root : Document) (trailing : Bool) {await : Await}
    (h : await = .value ∨ await = .firstItem) :
    (spelled.spelledItems items).foldl Assembly.step
        ⟨.array done :: outer, await, root, trailing⟩ =
      ⟨.array ((reread.rereadItems items).reverse ++ done) :: outer, .separator, root,
        trailing⟩ := by
  match items with
  | [] => exact absurd rfl hne
  | [item] =>
    rw [spelled.spelledItems, foldl_spelled item h]
    rfl
  | item :: next :: rest =>
    have hrest := foldl_spelledItems (next :: rest) (by simp) (item.reread :: done) outer root
      trailing (.inl rfl)
    have htokens : spelled.spelledItems (item :: next :: rest) =
        item.spelled ++ .comma :: spelled.spelledItems (next :: rest) := rfl
    have hcomma : Assembly.step (Assembly.put ⟨.array done :: outer, await, root, trailing⟩
        item.reread) .comma =
        ⟨.array (item.reread :: done) :: outer, .value, root, trailing⟩ := rfl
    rw [htokens, List.foldl_append, foldl_spelled item h, List.foldl_cons, hcomma, hrest]
    simp [reread.rereadItems]

lemma foldl_spelledMembers (members : List (String × Json)) (hne : members ≠ [])
    (before : Option String) (done : List (Option String × Document)) (outer : List OpenPart)
    (root : Document) (trailing : Bool) {await : Await} (h : await = .firstName ∨ await = .name) :
    (spelled.spelledMembers members).foldl Assembly.step
        ⟨.object done before :: outer, await, root, trailing⟩ =
      ⟨.object ((reread.rereadMembers members).reverse ++ done) none :: outer, .separator, root,
        trailing⟩ := by
  match members with
  | [] => exact absurd rfl hne
  | [(name, value)] =>
    rw [spelled.spelledMembers,
      Assembly.foldl_member before done outer root trailing h (foldl_spelled value)]
    rfl
  | (name, value) :: next :: rest =>
    have hrest := foldl_spelledMembers (next :: rest) (by simp) none
      ((some name, value.reread) :: done) outer root trailing (.inr rfl)
    have htokens : spelled.spelledMembers ((name, value) :: next :: rest) =
        (.string (some name) :: .colon :: value.spelled) ++
          .comma :: spelled.spelledMembers (next :: rest) := rfl
    have hcomma : ∀ done, Assembly.step
        ⟨.object done none :: outer, .separator, root, trailing⟩ .comma =
          ⟨.object done none :: outer, .name, root, trailing⟩ := fun _ => rfl
    rw [htokens, List.foldl_append,
      Assembly.foldl_member before done outer root trailing h (foldl_spelled value),
      List.foldl_cons, hcomma, hrest]
    simp [reread.rereadMembers]

end

lemma tokens_text (v : Json) : tokens v.text = v.spelled := by
  have hlex := atRest_render [] v
  have hstart : ({} : Lexer) = ⟨[], .between⟩ := rfl
  rw [tokens, text, String.toList_ofList, hstart, hlex.finish]
  simp

lemma read_text_eq (v : Json) : read v.text = ⟨v.reread, true⟩ := by
  rw [read, tokens_text, foldl_spelled v (.inl rfl)]
  rfl

/-! ### Values without numbers -/

mutual

lemma reread_of_numberFree (v : Json) (h : v.numberFree = true) : v.reread = v.toDocument := by
  cases v with
  | null | bool | string => rfl
  | number => cases h
  | array items => rw [reread, toDocument, rereadItems_of_freeItems items h]
  | object members => rw [reread, toDocument, rereadMembers_of_freeMembers members h]

lemma rereadItems_of_freeItems (items : List Json) (h : numberFree.freeItems items = true) :
    reread.rereadItems items = toDocument.ofItems items := by
  match items with
  | [] => rfl
  | item :: rest =>
    rw [numberFree.freeItems, Bool.and_eq_true] at h
    rw [reread.rereadItems, toDocument.ofItems, reread_of_numberFree item h.1,
      rereadItems_of_freeItems rest h.2]

lemma rereadMembers_of_freeMembers (members : List (String × Json))
    (h : numberFree.freeMembers members = true) :
    reread.rereadMembers members = toDocument.ofMembers members := by
  match members with
  | [] => rfl
  | (name, value) :: rest =>
    rw [numberFree.freeMembers, Bool.and_eq_true] at h
    rw [reread.rereadMembers, toDocument.ofMembers, reread_of_numberFree value h.1,
      rereadMembers_of_freeMembers rest h.2]

end

/-- The text of a value without numbers is read as that value, and as nothing more. -/
theorem read_text {v : Json} (h : v.numberFree = true) : read v.text = ⟨v.toDocument, true⟩ := by
  rw [read_text_eq, reread_of_numberFree v h]

end InspectorProtocol.Json
