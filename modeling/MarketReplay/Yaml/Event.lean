import MarketReplay.Yaml.Token

/-!
# Events

The values of a document in the order in which they begin and end. A machine with a stack of what is
expected next turns tokens into events; each of its steps takes a token or shortens what is expected
(`step_decreases`), so it ends.
-/

namespace MarketReplay.Yaml

/-- The beginning or the end of a value. -/
inductive Event where
  | alias (name : String)
  | scalar (anchor : Option String) (tag : Option String) (text : String) (plain : Bool)
  | sequenceStart (anchor : Option String) (tag : Option String)
  | sequenceEnd
  | mappingStart (anchor : Option String) (tag : Option String)
  | mappingEnd
  deriving DecidableEq

/-- What may come next: a value, or the rest of a collection. In a flow collection `first` tells
whether no comma is due. The rest of a pair belongs to a mapping of one entry that a flow sequence
holds without braces. -/
inductive Expected where
  | node (block indentless : Bool)
  | blockItem
  | indentlessItem
  | blockKey
  | blockValue
  | flowItem (first : Bool)
  | flowKey (first : Bool)
  | flowValue
  | flowNull
  | pairKey
  | pairValue
  | pairEnd

/-- The null that stands where a value is left out. -/
def Event.missing : Event := .scalar none none "" true

/-- An anchor and a tag, each perhaps absent, before a value. -/
structure Properties where
  anchor : Option String
  tag : Option WrittenTag

/-- The properties at the start of tokens. -/
def readProperties : List Token → Properties × List Token
  | .anchor name :: .tag tag :: rest => (⟨some name, some tag⟩, rest)
  | .tag tag :: .anchor name :: rest => (⟨some name, some tag⟩, rest)
  | .anchor name :: rest => (⟨some name, none⟩, rest)
  | .tag tag :: rest => (⟨none, some tag⟩, rest)
  | rest => (⟨none, none⟩, rest)

/-- A tag in full, by the meanings of handles. -/
def fullTag? (meanings : List (String × String)) (tag : WrittenTag) : Option String :=
  if tag.handle.isEmpty then some tag.suffix
  else (meanings.lookup tag.handle).map fun meaning => meaning ++ tag.suffix

/-- What a step gives: events, what they leave to be expected first, and the tokens after them. -/
structure Step where
  events : List Event
  expected : List Expected
  rest : List Token

/-- The step at a value whose properties were read. -/
def contentStep (block indentless : Bool) (anchor tag : Option String) (tokens : List Token) :
    Option Step :=
  match tokens with
  | .scalar text plain :: rest =>
    some ⟨[.scalar anchor (tag.filter (· != "!")) text plain], [], rest⟩
  | .flowSequenceStart :: rest => some ⟨[.sequenceStart anchor tag], [.flowItem true], rest⟩
  | .flowMappingStart :: rest => some ⟨[.mappingStart anchor tag], [.flowKey true], rest⟩
  | .blockSequenceStart :: rest =>
    if block then some ⟨[.sequenceStart anchor tag], [.blockItem], rest⟩
    else if anchor.isSome || tag.isSome then
      some ⟨[.scalar anchor tag "" true], [], .blockSequenceStart :: rest⟩
    else none
  | .blockMappingStart :: rest =>
    if block then some ⟨[.mappingStart anchor tag], [.blockKey], rest⟩
    else if anchor.isSome || tag.isSome then
      some ⟨[.scalar anchor tag "" true], [], .blockMappingStart :: rest⟩
    else none
  | .blockEntry :: rest =>
    if indentless then some ⟨[.sequenceStart anchor tag], [.indentlessItem], .blockEntry :: rest⟩
    else if anchor.isSome || tag.isSome then
      some ⟨[.scalar anchor tag "" true], [], .blockEntry :: rest⟩
    else none
  | tokens =>
    if anchor.isSome || tag.isSome then some ⟨[.scalar anchor tag "" true], [], tokens⟩ else none

/-- The step at a value. -/
def nodeStep (meanings : List (String × String)) (block indentless : Bool) (tokens : List Token) :
    Option Step :=
  match tokens with
  | .alias name :: rest => some ⟨[.alias name], [], rest⟩
  | tokens =>
    let (properties, rest) := readProperties tokens
    match properties.tag with
    | none => contentStep block indentless properties.anchor none rest
    | some tag =>
      match fullTag? meanings tag with
      | some tag => contentStep block indentless properties.anchor (some tag) rest
      | none => none

/-- A value, or the null in its place where one of the given tokens comes next, and then the rest of
the collection. -/
def valueOr (absent : Token → Bool) (value next : Expected) (tokens : List Token) : Step :=
  match tokens with
  | [] => ⟨[], [value, next], []⟩
  | t :: rest =>
    if absent t then ⟨[.missing], [next], t :: rest⟩ else ⟨[], [value, next], t :: rest⟩

/-- Whether a token ends an item of a block sequence. -/
def endsBlockItem (t : Token) : Bool := t == .blockEntry || t == .blockEnd

/-- Whether a token ends a key or a value of a block mapping. -/
def endsBlockPart (t : Token) : Bool := t == .key || t == .value || t == .blockEnd

/-- Whether a token ends an item of a sequence that is not indented. -/
def endsIndentlessItem (t : Token) : Bool := t == .blockEntry || endsBlockPart t

/-- Whether a token ends an item of a flow sequence. -/
def endsFlowItem (t : Token) : Bool := t == .flowEntry || t == .flowSequenceEnd

/-- Whether a token ends a value of a flow mapping. -/
def endsFlowValue (t : Token) : Bool := t == .flowEntry || t == .flowMappingEnd

/-- The next entry of a flow sequence. -/
def flowItemStep (tokens : List Token) : Step :=
  match tokens with
  | .flowSequenceEnd :: rest => ⟨[.sequenceEnd], [], rest⟩
  | .key :: rest => ⟨[.mappingStart none none], [.pairKey, .flowItem false], rest⟩
  | tokens => ⟨[], [.node false false, .flowItem false], tokens⟩

/-- The next entry of a flow mapping. -/
def flowKeyStep (tokens : List Token) : Step :=
  match tokens with
  | .flowMappingEnd :: rest => ⟨[.mappingEnd], [], rest⟩
  | .key :: rest =>
    valueOr (fun t => t == .value || endsFlowValue t) (.node false false) .flowValue rest
  | tokens => ⟨[], [.node false false, .flowNull], tokens⟩

/-- The step at the first thing expected. -/
def step (meanings : List (String × String)) (expected : Expected) (tokens : List Token) :
    Option Step :=
  match expected with
  | .node block indentless => nodeStep meanings block indentless tokens
  | .blockItem =>
    match tokens with
    | .blockEntry :: rest => some (valueOr endsBlockItem (.node true false) .blockItem rest)
    | .blockEnd :: rest => some ⟨[.sequenceEnd], [], rest⟩
    | _ => none
  | .indentlessItem =>
    match tokens with
    | .blockEntry :: rest =>
      some (valueOr endsIndentlessItem (.node true false) .indentlessItem rest)
    | tokens => some ⟨[.sequenceEnd], [], tokens⟩
  | .blockKey =>
    match tokens with
    | .key :: rest => some (valueOr endsBlockPart (.node true true) .blockValue rest)
    | .blockEnd :: rest => some ⟨[.mappingEnd], [], rest⟩
    | _ => none
  | .blockValue =>
    match tokens with
    | .value :: rest => some (valueOr endsBlockPart (.node true true) .blockKey rest)
    | tokens => some ⟨[.missing], [.blockKey], tokens⟩
  | .flowItem true => some (flowItemStep tokens)
  | .flowItem false =>
    match tokens with
    | .flowEntry :: rest => some (flowItemStep rest)
    | .flowSequenceEnd :: rest => some ⟨[.sequenceEnd], [], rest⟩
    | _ => none
  | .flowKey true => some (flowKeyStep tokens)
  | .flowKey false =>
    match tokens with
    | .flowEntry :: rest => some (flowKeyStep rest)
    | .flowMappingEnd :: rest => some ⟨[.mappingEnd], [], rest⟩
    | _ => none
  | .flowValue =>
    match tokens with
    | .value :: rest => some (valueOr endsFlowValue (.node false false) (.flowKey false) rest)
    | tokens => some ⟨[.missing], [.flowKey false], tokens⟩
  | .flowNull => some ⟨[.missing], [.flowKey false], tokens⟩
  | .pairKey =>
    match tokens with
    | .value :: rest => some ⟨[.missing], [.pairValue], rest⟩
    | .flowEntry :: rest => some ⟨[.missing], [.pairValue], rest⟩
    | .flowSequenceEnd :: rest => some ⟨[.missing], [.pairValue], rest⟩
    | tokens => some ⟨[], [.node false false, .pairValue], tokens⟩
  | .pairValue =>
    match tokens with
    | .value :: rest => some (valueOr endsFlowItem (.node false false) .pairEnd rest)
    | tokens => some ⟨[.missing], [.pairEnd], tokens⟩
  | .pairEnd => some ⟨[.mappingEnd], [], tokens⟩

/-- How many steps without a token may follow, at most. -/
def Expected.weight : Expected → Nat
  | .node _ _ => 2
  | .blockItem => 1
  | .indentlessItem => 1
  | .blockKey => 1
  | .blockValue => 2
  | .flowItem first => if first then 5 else 1
  | .flowKey first => if first then 6 else 1
  | .flowValue => 2
  | .flowNull => 2
  | .pairKey => 6
  | .pairValue => 2
  | .pairEnd => 1

/-- The weight of all that is expected. -/
def stackWeight : List Expected → Nat
  | [] => 0
  | first :: rest => first.weight + stackWeight rest

/-- The weights of two lists add up. -/
theorem stackWeight_append (front back : List Expected) :
    stackWeight (front ++ back) = stackWeight front + stackWeight back := by
  induction front with
  | nil => simp [stackWeight]
  | cons first rest ih => simp [stackWeight, ih, Nat.add_assoc]

/-- A step takes a token, or what it leaves to be expected weighs less than `weight`. -/
def Step.Decreases (s : Step) (weight : Nat) (tokens : List Token) : Prop :=
  s.rest.length < tokens.length ∨
    (s.rest.length = tokens.length ∧ stackWeight s.expected < weight)

/-- A step decreases all the more if a token was taken before it. -/
theorem Step.Decreases.cons {s : Step} {weight : Nat} {tokens : List Token}
    (h : s.Decreases weight tokens) (t : Token) (weight' : Nat) :
    s.Decreases weight' (t :: tokens) := by
  unfold Step.Decreases at *
  simp
  omega

/-- Properties are tokens of their own. -/
theorem readProperties_length (tokens : List Token) :
    (readProperties tokens).2.length ≤ tokens.length := by
  unfold readProperties
  split <;> simp <;> omega

/-- A step at a value whose properties were read decreases. -/
theorem contentStep_decreases {block indentless : Bool} {anchor tag : Option String}
    {tokens : List Token} {s : Step}
    (h : contentStep block indentless anchor tag tokens = some s) : s.Decreases 2 tokens := by
  unfold contentStep at h
  split at h <;> (try split at h) <;> (try split at h) <;> simp at h <;> subst h <;>
    simp [Step.Decreases, stackWeight, Expected.weight]

/-- A step at a value decreases. -/
theorem nodeStep_decreases {meanings : List (String × String)} {block indentless : Bool}
    {tokens : List Token} {s : Step}
    (h : nodeStep meanings block indentless tokens = some s) : s.Decreases 2 tokens := by
  have weaken : s.Decreases 2 (readProperties tokens).2 → s.Decreases 2 tokens := by
    have := readProperties_length tokens
    unfold Step.Decreases
    omega
  unfold nodeStep at h
  split at h
  · simp at h
    subst h
    simp [Step.Decreases]
  · simp only at h
    split at h
    · exact weaken (contentStep_decreases h)
    · split at h
      · exact weaken (contentStep_decreases h)
      · simp at h

/-- Where a value may be left out no token is lost. -/
theorem valueOr_rest (absent : Token → Bool) (value next : Expected) (tokens : List Token) :
    (valueOr absent value next tokens).rest = tokens := by
  unfold valueOr
  split
  · rfl
  · split <;> rfl

/-- The step at an entry of a flow sequence decreases. -/
theorem flowItemStep_decreases (tokens : List Token) :
    (flowItemStep tokens).Decreases 5 tokens := by
  unfold flowItemStep
  split <;> simp [Step.Decreases, stackWeight, Expected.weight]

/-- The step at an entry of a flow mapping decreases. -/
theorem flowKeyStep_decreases (tokens : List Token) :
    (flowKeyStep tokens).Decreases 6 tokens := by
  unfold flowKeyStep
  split <;> simp [Step.Decreases, stackWeight, Expected.weight, valueOr_rest]

/-- Each step takes a token or shortens what is expected. -/
theorem step_decreases {meanings : List (String × String)} {expected : Expected}
    {tokens : List Token} {s : Step} (h : step meanings expected tokens = some s) :
    s.Decreases expected.weight tokens := by
  have item := flowItemStep_decreases
  have key := flowKeyStep_decreases
  unfold step at h
  split at h
  · exact nodeStep_decreases h
  all_goals first
    | (simp at h
       subst h
       first
        | exact item _
        | exact key _
        | simp [Step.Decreases, stackWeight, Expected.weight])
    | (split at h <;> simp at h <;> subst h <;>
        first
        | exact (item _).cons _ _
        | exact (key _).cons _ _
        | simp [Step.Decreases, stackWeight, Expected.weight, valueOr_rest])

/-- The events of what is expected, after those in `acc`, the last one first, and the tokens that
are left. -/
def eventsFrom (meanings : List (String × String)) (acc : List Event) (expected : List Expected)
    (tokens : List Token) : Option (List Event × List Token) :=
  match expected with
  | [] => some (acc.reverse, tokens)
  | first :: expected =>
    match _h : step meanings first tokens with
    | none => none
    | some s => eventsFrom meanings (s.events.reverse ++ acc) (s.expected ++ expected) s.rest
termination_by (tokens.length, stackWeight expected)
decreasing_by
  have := step_decreases _h
  unfold Step.Decreases at this
  simp only [stackWeight_append, stackWeight] at *
  rcases this with h | ⟨h, hw⟩
  · exact Prod.Lex.left _ _ h
  · rw [h]
    exact Prod.Lex.right _ (by omega)

/-- The directives before a document, and the tokens after them. -/
def readDirectives : List Token → List Directive × List Token
  | .directive d :: rest =>
    let (more, rest) := readDirectives rest
    (d :: more, rest)
  | rest => ([], rest)

/-- The versions that can be read. -/
def isKnownVersion (d : Directive) : Bool :=
  match d with
  | .version major minor => major == 1 && (minor == 1 || minor == 2)
  | .tag _ _ => true

/-- What a directive settles: the version, or the meaning of a handle. -/
def Directive.subject : Directive → String
  | .version _ _ => ""
  | .tag handle _ => handle

/-- The meanings of the handles under directives of which no two settle the same. -/
def meanings? (directives : List Directive) : Option (List (String × String)) :=
  let subjects := directives.map Directive.subject
  if !directives.all isKnownVersion || subjects.eraseDups.length < subjects.length then none
  else
    let given := directives.filterMap fun d => match d with
      | .tag handle meaning => some (handle, meaning)
      | .version _ _ => none
    some (given ++ [("!", "!"), ("!!", "tag:yaml.org,2002:")])

/-- Whether a document without a value ends before a token. -/
def endsDocument : List Token → Bool
  | [] => true
  | .directive _ :: _ => true
  | .documentStart :: _ => true
  | .documentEnd :: _ => true
  | _ => false

/-- The events of the document that tokens begin with, and the tokens after it. -/
def documentEvents (tokens : List Token) : Option (List Event × List Token) :=
  let (directives, rest) := readDirectives tokens
  match meanings? directives with
  | none => none
  | some meanings =>
    match rest with
    | .documentStart :: rest =>
      if endsDocument rest then some ([.missing], rest)
      else eventsFrom meanings [] [.node true false] rest
    | rest =>
      if directives.isEmpty then eventsFrom meanings [] [.node true false] rest else none

/-- The events of tokens that hold at most one document. -/
def Event.ofTokens? (tokens : List Token) : Option (List Event) :=
  if tokens.isEmpty then some []
  else
    match documentEvents tokens with
    | some (events, rest) => if rest.all (· == .documentEnd) then some events else none
    | none => none

end MarketReplay.Yaml
