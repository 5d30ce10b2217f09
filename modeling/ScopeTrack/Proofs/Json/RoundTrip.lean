/-
# What is written is read back

Reading the compact text of a value gives the value, as long as it holds no
numbers and is not nested deeper than the reader allows (`parse?_compact`).  Both
machines are followed along the value: the characters give its tokens
(`lexes_compact`), and its tokens are put together to the value where the reader
stands (`Reader.reads_of_fits`).

A list of items and a list of members are read in the same way, part after part
with commas between them (`foldlM_intercalate`).
-/

import ScopeTrack.Proofs.Json.Spelling

namespace ScopeTrack
namespace Json

/-! ## The tokens of a value -/

mutual

/-- The tokens of a value. -/
def tokens : Json → List Token
  | .null => [.scalar .null]
  | .bool value => [.scalar (.bool value)]
  | .num value => [.scalar (.num value)]
  | .str value => [.text value]
  | .arr items => .openArray :: ([.comma].intercalate (tokensItems items) ++ [.closeArray])
  | .obj members => .openObject :: ([.comma].intercalate (tokensMembers members) ++ [.closeObject])

/-- The tokens of each of some values. -/
def tokensItems : List Json → List (List Token)
  | [] => []
  | item :: items => tokens item :: tokensItems items

/-- The tokens of each of some members. -/
def tokensMembers : List (String × Json) → List (List Token)
  | [] => []
  | (name, value) :: members => (.text name :: .colon :: tokens value) :: tokensMembers members

end

/-- A value without numbers that has at most `room` arrays and objects one inside
the other. -/
inductive Fits : Nat → Json → Prop
  | null {room : Nat} : Fits room .null
  | bool {room : Nat} (value : Bool) : Fits room (.bool value)
  | str {room : Nat} (value : String) : Fits room (.str value)
  | arr {room : Nat} {items : List Json} (fits : ∀ item ∈ items, Fits room item) :
    Fits (room + 1) (.arr items)
  | obj {room : Nat} {members : List (String × Json)}
    (fits : ∀ member ∈ members, Fits room member.2) : Fits (room + 1) (.obj members)

theorem compactItems_eq (items : List Json) : compactItems items = items.map compact := by
  induction items with
  | nil => rfl
  | cons item items ih => rw [compactItems, ih, List.map_cons]

/-- The texts of members: each has its quoted name, a colon, and the text of its value. -/
theorem compactMembers_eq (members : List (String × Json)) :
    compactMembers members = members.map fun member =>
      quote member.1 ++ ":" ++ compact member.2 := by
  induction members with
  | nil => rfl
  | cons member members ih => rw [compactMembers, ih, List.map_cons]

theorem tokensItems_eq (items : List Json) : tokensItems items = items.map tokens := by
  induction items with
  | nil => rfl
  | cons item items ih => rw [tokensItems, ih, List.map_cons]

/-- The tokens of members: each has its name, a colon, and the tokens of its value. -/
theorem tokensMembers_eq (members : List (String × Json)) :
    tokensMembers members = members.map fun member =>
      .text member.1 :: .colon :: tokens member.2 := by
  induction members with
  | nil => rfl
  | cons member members ih => rw [tokensMembers, ih, List.map_cons]

/-! ## From characters to tokens -/

/-- **Parts that are joined by commas have their tokens joined by commas.**  Stated for
any kind of part, so that items and members are two cases of it. -/
theorem lexes_intercalate {α : Type} {parts : List α} {text : α → String}
    {tokens : α → List Token} (h : ∀ part ∈ parts, Lexes (text part).toList (tokens part)) :
    Lexes (",".intercalate (parts.map text)).toList ([.comma].intercalate (parts.map tokens)) := by
  induction parts with
  | nil => simpa using lexes_nil
  | cons part parts ih =>
      obtain ⟨hpart, hparts⟩ := List.forall_mem_cons.1 h
      by_cases hnil : parts = []
      · simpa [hnil] using hpart
      · have hmap : parts.map text ≠ [] := by simpa using hnil
        have hmapTokens : parts.map tokens ≠ [] := by simpa using hnil
        rw [List.map_cons, List.map_cons, String.intercalate_cons_of_ne_nil hmap,
          List.intercalate_cons_of_ne_nil hmapTokens]
        have hjoin := hpart.join (c := ',') rfl (ih hparts)
        simpa using hjoin

/-- Parts between two brackets. -/
theorem Lexes.bracket {text left right : String} {tokens : List Token} {l r : Char}
    {opening closing : Token} (h : Lexes text.toList tokens) (hl : left.toList = [l])
    (hr : right.toList = [r]) (hopening : mark? l = some opening)
    (hclosing : mark? r = some closing) :
    Lexes (left ++ text ++ right).toList (opening :: (tokens ++ [closing])) := by
  have hjoin := lexes_nil.join hopening (h.join hclosing lexes_nil)
  simpa [hl, hr] using hjoin

/-- **The characters of a written value are those of its tokens.**  -/
theorem lexes_compact {room : Nat} {value : Json} (h : Fits room value) :
    Lexes value.compact.toList value.tokens := by
  induction h with
  | null => exact lexes_word (by decide) rfl rfl
  | bool value => cases value <;> exact lexes_word (by decide) rfl rfl
  | str value =>
      rw [compact, tokens]
      exact lexes_quote value
  | arr _ ih =>
      rw [compact, tokens, compactItems_eq, tokensItems_eq]
      exact (lexes_intercalate ih).bracket rfl rfl rfl rfl
  | obj _ ih =>
      rw [compact, tokens, compactMembers_eq, tokensMembers_eq]
      refine (lexes_intercalate fun member hmember => ?_).bracket rfl rfl rfl rfl
      have hjoin := (lexes_quote member.1).join (c := ':') rfl (ih member hmember)
      simpa using hjoin

/-- A written value holds no control character. -/
theorem le_of_mem_compact {room : Nat} {value : Json} (h : Fits room value) :
    ∀ c ∈ value.compact.toList, 0x20 ≤ c.toNat := by
  induction h with
  | null => exact Text.forall_mem_of_all rfl
  | bool value => cases value <;> exact Text.forall_mem_of_all rfl
  | str value =>
      rw [compact]
      exact fun c hc => le_of_mem_quote hc
  | arr _ ih =>
      rw [compact, compactItems_eq, Text.forall_mem_append, Text.forall_mem_append]
      refine ⟨⟨Text.forall_mem_of_all rfl, ?_⟩, Text.forall_mem_of_all rfl⟩
      refine Text.forall_mem_intercalate (Text.forall_mem_of_all rfl) ?_
      rw [List.forall_mem_map]
      exact ih
  | obj _ ih =>
      rw [compact, compactMembers_eq, Text.forall_mem_append, Text.forall_mem_append]
      refine ⟨⟨Text.forall_mem_of_all rfl, ?_⟩, Text.forall_mem_of_all rfl⟩
      refine Text.forall_mem_intercalate (Text.forall_mem_of_all rfl) ?_
      rw [List.forall_mem_map]
      intro member hmember
      rw [Text.forall_mem_append, Text.forall_mem_append]
      exact ⟨⟨fun c hc => le_of_mem_quote hc, Text.forall_mem_of_all rfl⟩, ih member hmember⟩

/-! ## From tokens to the value -/

/-- Reading parts that are joined by a separator, where each part leads from a
state in which one may start to the state after it, and the separator leads from
there to a state in which the next may start. -/
theorem foldlM_intercalate {α σ τ : Type} {step : σ → τ → Option σ} {separator : τ}
    {tokens : α → List τ} (Starts : List α → σ → Prop) (stop : List α → σ) {parts : List α}
    (hpart : ∀ part ∈ parts, ∀ done s, Starts done s →
      (tokens part).foldlM step s = some (stop (part :: done)))
    (hseparator : ∀ done, ∃ s, step (stop done) separator = some s ∧ Starts done s)
    (hne : parts ≠ []) {done : List α} {s : σ} (hs : Starts done s) :
    ([separator].intercalate (parts.map tokens)).foldlM step s =
      some (stop (parts.reverse ++ done)) := by
  induction parts generalizing done s with
  | nil => exact absurd rfl hne
  | cons part parts ih =>
      obtain ⟨hfirst, hrest⟩ := List.forall_mem_cons.1 hpart
      by_cases hnil : parts = []
      · simpa [hnil] using hfirst done s hs
      · obtain ⟨next, hnext, hstarts⟩ := hseparator (part :: done)
        have hmap : parts.map tokens ≠ [] := by simpa using hnil
        rw [List.map_cons, List.intercalate_cons_of_ne_nil hmap, List.foldlM_append,
          List.foldlM_append, hfirst done s hs]
        simp only [List.foldlM_cons, List.foldlM_nil, Option.bind_eq_bind, Option.bind_some, hnext,
          Option.pure_def, ih hrest hnil hstarts]
        simp

/-- A value may come next. -/
def Need.TakesValue (need : Need) : Prop :=
  need = .value ∨ need = .itemOrEnd

namespace Reader

/-- Where a value may come, a token starts one or is one.  Only in front of the first
item of an array there is another choice, which is to close it. -/
theorem step_value {need : Need} (hneed : need.TakesValue) {token : Token}
    (h : token ≠ .closeArray) (limit : Nat) (opened : List Open) :
    step limit ⟨opened, need⟩ token = stepValue limit opened token := by
  rcases hneed with rfl | rfl
  · cases token <;> rfl
  · cases token with
    | closeArray => exact absurd rfl h
    | _ => rfl

/-- The tokens of the value are put together to the value, wherever one may come
with room for it. -/
def Reads (limit room : Nat) (value : Json) : Prop :=
  ∀ (opened : List Open) (need : Need), need.TakesValue → opened.length + room ≤ limit →
    value.tokens.foldlM (step limit) ⟨opened, need⟩ = put value opened

/-- **The tokens of an array** are put together to the array, if those of its items are
put together to the items with one level less of room.  An item may start right after
the bracket or after a comma; these are the two states in which the reader takes a
value. -/
theorem reads_arr {limit room : Nat} {items : List Json}
    (h : ∀ item ∈ items, Reads limit room item) : Reads limit (room + 1) (.arr items) := by
  intro opened need hneed hroom
  have hopen : opened.length < limit := by omega
  have hinner : ∀ done, (Open.array done :: opened).length + room ≤ limit := by
    intro done
    rw [List.length_cons]
    omega
  rw [tokens, tokensItems_eq, List.foldlM_cons, step_value hneed (by simp), stepValue,
    if_pos hopen, Option.bind_eq_bind, Option.bind_some, List.foldlM_append]
  by_cases hnil : items = []
  · simp [hnil, step, closeArray]
  · let Starts (done : List Json) (r : Reader) : Prop :=
      ∃ need, need.TakesValue ∧ r = ⟨.array done :: opened, need⟩
    have hstart : Starts [] ⟨.array [] :: opened, .itemOrEnd⟩ := ⟨_, .inr rfl, rfl⟩
    rw [foldlM_intercalate Starts (fun done => ⟨.array done :: opened, .commaOrEnd⟩)
      ?_ ?_ hnil hstart]
    · simp [step, closeArray]
    · rintro item hitem done _ ⟨need, hneed, rfl⟩
      exact h item hitem _ _ hneed (hinner done)
    · exact fun done => ⟨_, rfl, _, .inl rfl, rfl⟩

/-- **The tokens of an object**, like those of an array.  A member starts with its name,
and after the colon its value is read where the name is open. -/
theorem reads_obj {limit room : Nat} {members : List (String × Json)}
    (h : ∀ member ∈ members, Reads limit room member.2) :
    Reads limit (room + 1) (.obj members) := by
  intro opened need hneed hroom
  have hopen : opened.length < limit := by omega
  have hinner : ∀ done name, (Open.member done name :: opened).length + room ≤ limit := by
    intro done name
    rw [List.length_cons]
    omega
  rw [tokens, tokensMembers_eq, List.foldlM_cons, step_value hneed (by simp), stepValue,
    if_pos hopen, Option.bind_eq_bind, Option.bind_some, List.foldlM_append]
  by_cases hnil : members = []
  · simp [hnil, step, closeObject]
  · let Starts (done : List (String × Json)) (r : Reader) : Prop :=
      r = ⟨.object done :: opened, .nameOrEnd⟩ ∨ r = ⟨.object done :: opened, .name⟩
    have hstart : Starts [] ⟨.object [] :: opened, .nameOrEnd⟩ := .inl rfl
    rw [foldlM_intercalate Starts (fun done => ⟨.object done :: opened, .commaOrEnd⟩)
      ?_ ?_ hnil hstart]
    · simp [step, closeObject]
    · intro member hmember done r hr
      have hvalue := h member hmember _ _ (.inl rfl) (hinner done member.1)
      rcases hr with rfl | rfl
      · exact hvalue
      · exact hvalue
    · exact fun done => ⟨_, rfl, .inr rfl⟩

/-- **The tokens of a value are put together to the value.**  -/
theorem reads_of_fits {limit room : Nat} {value : Json} (h : Fits room value) :
    Reads limit room value := by
  induction h with
  | null | bool value | str value =>
      intro opened need hneed _
      rw [tokens, List.foldlM_cons, step_value hneed (by simp)]
      simp [stepValue]
  | arr _ ih => exact reads_arr ih
  | obj _ ih => exact reads_obj ih

end Reader

/-- **Reading gives back what is written**, if it holds no numbers and the limit
leaves room for it. -/
theorem parse?_compact {limit : Nat} {value : Json} (h : Fits limit value) :
    parse? limit value.compact = some value := by
  rw [parse?, tokens?_of_lexes (lexes_compact h), Option.bind_eq_bind, Option.bind_some,
    Reader.reads_of_fits h [] .value (.inl rfl) (by simp)]
  rfl

/-- A quoted text is read back, however little room there is, as it is not nested. -/
theorem parse?_quote (limit : Nat) (text : String) :
    parse? limit (quote text) = some (.str text) := by
  have h := parse?_compact (Fits.str text : Fits limit (.str text))
  rwa [compact] at h

end Json
end ScopeTrack
