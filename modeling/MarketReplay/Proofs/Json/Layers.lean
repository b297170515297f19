import MarketReplay.Proofs.Json.Paths

/-!
# What is left of layers

A layer speaks about a path of keys if it has a value there that is not null, or lays down a whole
value above it (`Json.Speaks`). What a document has at a path after a layer is laid over it depends
on that alone: a layer that speaks puts its own value there, joined with the earlier one if both are
objects (`Json.under?_overlay_of_speaks`), and one that does not keeps the earlier one
(`Json.under?_overlay_of_not_speaks`). So of all layers the last one that speaks about a path wins
(`Json.last_layer_wins`).
-/

namespace MarketReplay

namespace Json

/-- The value under keys. -/
def under? (keys : List String) (j : Json) : Option Json := j.valueAt? (keys.map .key)

/-- A value that a layer lays down whole: neither null nor an object. -/
def isWhole : Json → Bool
  | null => false
  | object _ => false
  | _ => true

/-- Whether a layer speaks about a path of keys. -/
def Speaks (layer : Json) (path : List String) : Prop :=
  (∃ v, layer.under? path = some v ∧ v ≠ null) ∨
    ∃ front back v, path = front ++ back ∧ back ≠ [] ∧ layer.under? front = some v ∧ v.isWhole

/-! ### One key at a time -/

/-- Keys are followed one after the other. -/
theorem under?_cons (key : String) (rest : List String) (j : Json) :
    j.under? (key :: rest) = (into? (.key key) j).bind (under? rest) := rfl

/-- Nothing is under the keys of a null. -/
theorem under?_null_cons (key : String) (rest : List String) :
    null.under? (key :: rest) = none := rfl

/-- Only objects have keys. -/
theorem into?_of_isWhole {j : Json} (h : j.isWhole) (key : String) : into? (.key key) j = none := by
  cases j <;> first | rfl | cases h

/-- A layer speaks about the whole document if it is not null. -/
theorem speaks_nil {layer : Json} : layer.Speaks [] ↔ layer ≠ null := by
  constructor
  · rintro (⟨v, hv, hne⟩ | ⟨front, back, v, hpath, hback, -, -⟩)
    · obtain rfl := Option.some.inj hv
      exact hne
    · exact absurd (List.append_eq_nil_iff.1 hpath.symm).2 hback
  · exact fun h => .inl ⟨layer, rfl, h⟩

/-- A layer speaks about what is under a key if it is a whole value, or has the key and speaks
about the rest there. -/
theorem speaks_cons {layer : Json} {key : String} {rest : List String} :
    layer.Speaks (key :: rest) ↔
      layer.isWhole ∨ ∃ child, into? (.key key) layer = some child ∧ child.Speaks rest := by
  constructor
  · rintro (⟨v, hv, hne⟩ | ⟨front, back, v, hpath, hback, hv, hwhole⟩)
    · obtain ⟨child, hchild, hrest⟩ := Option.bind_eq_some_iff.1 hv
      exact .inr ⟨child, hchild, .inl ⟨v, hrest, hne⟩⟩
    · cases front with
      | nil =>
          obtain rfl := Option.some.inj hv
          exact .inl hwhole
      | cons k front =>
          obtain ⟨rfl, rfl⟩ := List.cons.inj hpath
          obtain ⟨child, hchild, hfront⟩ := Option.bind_eq_some_iff.1 hv
          exact .inr ⟨child, hchild, .inr ⟨front, back, v, rfl, hback, hfront, hwhole⟩⟩
  · rintro (hwhole | ⟨child, hchild, hspeaks⟩)
    · exact .inr ⟨[], key :: rest, layer, rfl, List.cons_ne_nil _ _, rfl, hwhole⟩
    · rcases hspeaks with ⟨v, hv, hne⟩ | ⟨front, back, v, rfl, hback, hv, hwhole⟩
      · exact .inl ⟨v, by rw [under?_cons, hchild]; exact hv, hne⟩
      · exact .inr ⟨key :: front, back, v, rfl, hback, by rw [under?_cons, hchild]; exact hv,
          hwhole⟩

/-! ### One layer over a document -/

/-- A null leaves what was there. -/
@[simp] theorem overlay_null (earlier : Json) : overlay earlier null = earlier := rfl

/-- Laid over a null, a layer is what it was. -/
@[simp] theorem null_overlay (later : Json) : overlay null later = later := by
  cases later <;> rfl

/-- A whole value takes the place of what was there. -/
theorem overlay_of_isWhole {later : Json} (h : later.isWhole) (earlier : Json) :
    overlay earlier later = later := by
  cases later <;> first | rfl | cases h

/-- Under a key of an object that is laid over a document stands its value laid over the earlier
one, and under another key what was there. -/
theorem into?_overlay_object (earlier : Json) (fields : List (String × Json)) (key : String) :
    into? (.key key) (overlay earlier (object fields)) =
      match field? key fields with
      | some value => some (overlay ((into? (.key key) earlier).getD null) value)
      | none => into? (.key key) earlier := by
  cases earlier with
  | object old => exact field?_overlayFields old fields key
  | null | bool _ | number _ | string _ | array _ =>
      show field? key fields = _
      cases field? key fields with
      | none => rfl
      | some value => exact congrArg some (null_overlay value).symm

variable {layer : Json} {path : List String}

/-- A layer that does not speak about a path keeps what was there; where there was nothing, it may
leave a null. -/
theorem under?_overlay_of_not_speaks (h : ¬ layer.Speaks path) (earlier : Json) :
    (overlay earlier layer).under? path = (earlier.under? path).or (layer.under? path) := by
  induction path generalizing layer earlier with
  | nil =>
      obtain rfl := Classical.not_not.1 (mt speaks_nil.2 h)
      rfl
  | cons key rest ih =>
      obtain ⟨hwhole, hchild⟩ := not_or.1 (mt speaks_cons.2 h)
      cases layer with
      | null => rw [overlay_null, under?_null_cons, Option.or_none]
      | object fields =>
          rw [under?_cons, under?_cons, under?_cons, into?_overlay_object]
          cases hvalue : field? key fields with
          | none =>
              have hnone : into? (.key key) (object fields) = none := hvalue
              rw [hnone, Option.bind_none, Option.or_none]
          | some value =>
              have hsome : into? (.key key) (object fields) = some value := hvalue
              have hsilent : ¬ value.Speaks rest := fun hspeaks => hchild ⟨value, hsome, hspeaks⟩
              rw [hsome, Option.bind_some, Option.bind_some, ih hsilent]
              cases into? (.key key) earlier with
              | some old => rfl
              | none =>
                  -- The null that stands for the missing value has nothing under further keys.
                  cases rest with
                  | nil =>
                      obtain rfl := Classical.not_not.1 (mt speaks_nil.2 hsilent)
                      rfl
                  | cons key' rest' => rfl
      | bool _ | number _ | string _ | array _ => exact absurd rfl hwhole

/-- A layer that speaks about a path puts there what it has itself, laid over what was there. -/
theorem under?_overlay_of_speaks (h : layer.Speaks path) (earlier : Json) :
    (overlay earlier layer).under? path =
      (layer.under? path).map (overlay ((earlier.under? path).getD null)) := by
  induction path generalizing layer earlier with
  | nil => rfl
  | cons key rest ih =>
      rcases speaks_cons.1 h with hwhole | ⟨child, hchild, hspeaks⟩
      · rw [overlay_of_isWhole hwhole, under?_cons, into?_of_isWhole hwhole]
        rfl
      · cases layer with
        | object fields =>
            have hvalue : field? key fields = some child := hchild
            rw [under?_cons, under?_cons, under?_cons, into?_overlay_object, hvalue, hchild,
              Option.bind_some, Option.bind_some, ih hspeaks]
            cases into? (.key key) earlier with
            | some old => rfl
            | none => cases rest <;> rfl
        | null | bool _ | number _ | string _ | array _ => cases hchild

/-- Where a layer speaks about a path it has no null there. -/
theorem Speaks.ne_null (h : layer.Speaks path) {v : Json} (hv : layer.under? path = some v) :
    v ≠ null := by
  induction path generalizing layer with
  | nil =>
      obtain rfl := Option.some.inj hv
      exact speaks_nil.1 h
  | cons key rest ih =>
      obtain ⟨child, hchild, hrest⟩ := Option.bind_eq_some_iff.1 hv
      rcases speaks_cons.1 h with hwhole | ⟨child', hchild', hspeaks⟩
      · rw [into?_of_isWhole hwhole] at hchild
        cases hchild
      · rw [hchild] at hchild'
        obtain rfl := Option.some.inj hchild'
        exact ih hspeaks hrest

/-- What is laid over a document is a whole value only if it was one. -/
theorem eq_of_overlay_isWhole {earlier later : Json} (hnull : later ≠ null)
    (h : (overlay earlier later).isWhole) : overlay earlier later = later := by
  cases later with
  | null => exact absurd rfl hnull
  | object fields => cases earlier <;> cases h
  | bool _ | number _ | string _ | array _ => rfl

/-- A whole value is at a path after a layer is laid over a document if the layer has it there, or
if the document has it and the layer does not speak about the path. -/
theorem under?_overlay_eq_some_iff {v : Json} (hwhole : v.isWhole) (earlier : Json) :
    (overlay earlier layer).under? path = some v ↔
      layer.under? path = some v ∨ earlier.under? path = some v ∧ ¬ layer.Speaks path := by
  by_cases hspeaks : layer.Speaks path
  · rw [under?_overlay_of_speaks hspeaks, Option.map_eq_some_iff]
    simp only [hspeaks, not_true_eq_false, and_false, or_false]
    constructor
    · rintro ⟨value, hvalue, rfl⟩
      rw [eq_of_overlay_isWhole (hspeaks.ne_null hvalue) hwhole]
      exact hvalue
    · exact fun h => ⟨v, h, overlay_of_isWhole hwhole _⟩
  · have hnone : layer.under? path ≠ some v := by
      intro h
      refine hspeaks (.inl ⟨v, h, ?_⟩)
      rintro rfl
      cases hwhole
    rw [under?_overlay_of_not_speaks hspeaks, Option.or_eq_some_iff]
    simp only [hnone, and_false, or_false, false_or, hspeaks, not_false_eq_true, and_true]

/-! ### All layers -/

/-- One more layer is laid over the document of those before it. -/
theorem ofLayers_concat (front : List Json) (layer : Json) :
    ofLayers (front ++ [layer]) = overlay (ofLayers front) layer := by
  rw [ofLayers, List.foldl_append]
  rfl

/-- More layers are laid over the document of those before them. -/
theorem ofLayers_append (front back : List Json) :
    ofLayers (front ++ back) = back.foldl overlay (ofLayers front) :=
  List.foldl_append

/-- A whole value is at a path of the document of layers if one of them has it there and none of
the later ones speaks about the path. -/
theorem under?_ofLayers_eq_some_iff {v : Json} (hwhole : v.isWhole) (layers : List Json) :
    (ofLayers layers).under? path = some v ↔
      ∃ front layer back, layers = front ++ layer :: back ∧ layer.under? path = some v ∧
        ∀ later ∈ back, ¬ later.Speaks path := by
  induction layers using List.reverseRecOn with
  | nil =>
      constructor
      · intro h
        cases path with
        | nil =>
            obtain rfl := Option.some.inj h
            cases hwhole
        | cons key rest => cases h
      · rintro ⟨front, layer, back, hsplit, -⟩
        exact absurd hsplit (by simp)
  | append_singleton front last ih =>
      rw [ofLayers_concat, under?_overlay_eq_some_iff hwhole, ih]
      constructor
      · rintro (hlast | ⟨⟨front', layer, back, rfl, hlayer, hback⟩, hsilent⟩)
        · exact ⟨front, last, [], rfl, hlast, nofun⟩
        · refine ⟨front', layer, back ++ [last], by simp, hlayer, fun later hlater => ?_⟩
          rcases List.mem_append.1 hlater with hlater | hlater
          · exact hback later hlater
          · obtain rfl := List.mem_singleton.1 hlater
            exact hsilent
      · rintro ⟨front', layer, back, hsplit, hlayer, hback⟩
        rcases List.eq_nil_or_concat back with rfl | ⟨back', last', rfl⟩
        · obtain ⟨rfl, hlast⟩ := List.append_inj' hsplit rfl
          obtain rfl := (List.cons.inj hlast).1
          exact .inl hlayer
        · have hsplit' : front ++ [last] = (front' ++ layer :: back') ++ [last'] := by
            rw [hsplit]
            simp
          obtain ⟨rfl, hlast⟩ := List.append_inj' hsplit' rfl
          obtain rfl := (List.cons.inj hlast).1
          exact .inr ⟨⟨front', layer, back', rfl, hlayer, fun later hlater =>
            hback later (by simp [hlater])⟩, hback last (by simp)⟩

/-- A layer that is laid over a document twice in a row changes nothing the second time. -/
theorem overlay_overlay {later : Json} (h : later.Ordered) {earlier : Json}
    (hearlier : earlier.Ordered) :
    overlay (overlay earlier later) later = overlay earlier later := by
  induction h generalizing earlier with
  | @leaf j hleaf => cases j <;> first | rfl | cases hleaf
  | array h => rfl
  | @object fields hrising h ih =>
      have hlaid := overlay_ordered (.object hrising h) hearlier
      obtain ⟨laid, hobject⟩ : ∃ laid, overlay earlier (object fields) = object laid := by
        cases earlier <;> exact ⟨_, rfl⟩
      rw [hobject] at hlaid ⊢
      have htwice := overlay_ordered (.object hrising h) hlaid
      refine congrArg object (rising_ext htwice.fieldsOrdered.1 hlaid.fieldsOrdered.1 fun key => ?_)
      -- Under each of its keys the layer is laid over twice, and once will do there.
      have hkey := into?_overlay_object earlier fields key
      rw [hobject] at hkey
      have hkey : field? key laid = _ := hkey
      rw [field?_overlayFields, hkey]
      cases hvalue : field? key fields with
      | none => rfl
      | some value =>
          have hmem := (field?_eq_some_iff hrising).1 hvalue
          have hold : ((into? (.key key) earlier).getD null).Ordered := by
            cases earlier with
            | object old => exact hearlier.fieldsOrdered.getD_field? key
            | null | bool _ | number _ | string _ | array _ => exact .leaf rfl
          exact congrArg some (ih (key, value) hmem hold)

end Json

/-! ### Layers without a document -/

/-- A text that holds nothing but spaces, line ends and comments. -/
def Yaml.HoldsNothing (text : String) : Prop :=
  ∃ gs, glyphs? text = some gs ∧ (Scan.gapEnd false true false gs).2 = []

/-- There are no tokens in such a text. -/
theorem Yaml.HoldsNothing.tokens {text : String} (h : HoldsNothing text) :
    Token.ofText? text = some [] := by
  obtain ⟨gs, hgs, hgap⟩ := h
  have hrun : Scan.run (gs.length + 1) (.start gs) = some
      { Scan.start gs with
        rest := []
        keyAllowed := (Scan.gapEnd false true false gs).1 } := by
    have hskip : (Scan.start gs).skipGap =
        { Scan.start gs with
          rest := (Scan.gapEnd false true false gs).2
          keyAllowed := (Scan.gapEnd false true false gs).1 } := rfl
    rw [Scan.run]
    simp only [hskip, hgap]
    rfl
  unfold Token.ofText?
  rw [hgs, Option.bind_eq_bind, Option.bind_some, hrun]
  rfl

/-- A text without a document is a null layer. -/
theorem Config.readLayer_of_holdsNothing {text : String} (h : Yaml.HoldsNothing text)
    (index : Nat) : readLayer index text = .ok .null := by
  have hvalue : Yaml.parse? text = some .null := by
    unfold Yaml.parse?
    rw [h.tokens]
    rfl
  unfold readLayer
  rw [hvalue]
  rfl

namespace Json

/-- Of layers the last one that speaks about a path says which whole value is there. Null layers,
and so texts without a document, change nothing, nor does an object without fields change an object;
what a layer does not speak about it keeps, but for a null where there was nothing; and a layer that
comes twice in a row counts once. -/
theorem last_layer_wins (layers : List Json) :
    (∀ path v, v.isWhole → ((ofLayers layers).under? path = some v ↔
      ∃ front layer back, layers = front ++ layer :: back ∧ layer.under? path = some v ∧
        ∀ later ∈ back, ¬ later.Speaks path)) ∧
    (∀ front back, layers = front ++ null :: back → ofLayers layers = ofLayers (front ++ back)) ∧
    (∀ text, Yaml.HoldsNothing text → ∀ index, Config.readLayer index text = .ok null) ∧
    (∀ front back fields, layers = front ++ object [] :: back → ofLayers front = object fields →
      ofLayers layers = ofLayers (front ++ back)) ∧
    (∀ front layer path, layers = front ++ [layer] → ¬ layer.Speaks path →
      (ofLayers layers).under? path = ((ofLayers front).under? path).or (layer.under? path)) ∧
    ∀ front layer back, layers = front ++ layer :: back → (∀ l ∈ layers, l.Ordered) →
      ofLayers (front ++ layer :: layer :: back) = ofLayers layers := by
  refine ⟨fun path v hwhole => under?_ofLayers_eq_some_iff hwhole layers, ?_,
    fun text h => Config.readLayer_of_holdsNothing h, ?_, ?_, ?_⟩
  · rintro front back rfl
    rw [ofLayers_append, ofLayers_append, List.foldl_cons, overlay_null]
  · rintro front back fields rfl hfront
    rw [ofLayers_append, ofLayers_append, List.foldl_cons, hfront]
    rfl
  · rintro front layer path rfl hsilent
    rw [ofLayers_concat, under?_overlay_of_not_speaks hsilent]
  · rintro front layer back rfl hordered
    have hfront : (ofLayers front).Ordered :=
      ofLayers_ordered fun l hl => hordered l (List.mem_append_left _ hl)
    have hlayer : layer.Ordered := hordered layer (by simp)
    rw [ofLayers_append, ofLayers_append, List.foldl_cons, List.foldl_cons, List.foldl_cons,
      overlay_overlay hlayer hfront]

/-- A layer with a resolution and a start. -/
def minuteLayer : Json :=
  object [("backtest", object [("resolution", string "minute"), ("start", string "2013-10-07")])]

/-- A layer with another resolution and no start. -/
def tickLayer : Json :=
  object [("backtest", object [("resolution", string "tick"), ("start", null)])]

/-- The resolution is that of the later layer and the start that of the earlier one; the layer
between them has no document, and the later one may come twice. -/
theorem tick_over_minute :
    (∀ l ∈ [minuteLayer, null, tickLayer], l.Ordered) ∧
    (string "tick").isWhole ∧ Yaml.HoldsNothing " # nothing\n" ∧
    ¬ tickLayer.Speaks ["backtest", "start"] ∧
    (ofLayers [minuteLayer, null, tickLayer]).under? ["backtest", "resolution"] =
      some (string "tick") ∧
    (ofLayers [minuteLayer, null, tickLayer]).under? ["backtest", "start"] =
      some (string "2013-10-07") ∧
    ofLayers [minuteLayer, null, tickLayer] = ofLayers [minuteLayer, tickLayer] ∧
    Config.readLayer 1 " # nothing\n" = .ok null ∧
    ofLayers [minuteLayer, null, tickLayer, tickLayer] =
      ofLayers [minuteLayer, null, tickLayer] := by
  obtain ⟨hlast, hnull, htext, -, hkept, htwice⟩ := last_layer_wins [minuteLayer, null, tickLayer]
  have hsettings : ∀ a b : Json, a.isLeaf → b.isLeaf →
      (object [("backtest", object [("resolution", a), ("start", b)])]).Ordered := by
    intro a b ha hb
    have hkeys : compare "resolution" "start" = .lt := by decide
    refine .object (List.pairwise_singleton _ _)
      (List.forall_mem_singleton.2 (.object (List.pairwise_pair.2 hkeys) ?_))
    exact List.forall_mem_cons.2 ⟨.leaf ha, List.forall_mem_singleton.2 (.leaf hb)⟩
  have hordered : ∀ l ∈ [minuteLayer, null, tickLayer], l.Ordered :=
    List.forall_mem_cons.2 ⟨hsettings _ _ rfl rfl, List.forall_mem_cons.2
      ⟨.leaf rfl, List.forall_mem_singleton.2 (hsettings _ _ rfl rfl)⟩⟩
  have hnothing : Yaml.HoldsNothing " # nothing\n" := ⟨_, rfl, rfl⟩
  have hsilent : ¬ tickLayer.Speaks ["backtest", "start"] := by
    intro h
    obtain hwhole | ⟨section', hsection, h⟩ := speaks_cons.1 h
    · cases hwhole
    obtain rfl := Option.some.inj hsection
    obtain hwhole | ⟨start, hstart, h⟩ := speaks_cons.1 h
    · cases hwhole
    obtain rfl := Option.some.inj hstart
    exact speaks_nil.1 h rfl
  refine ⟨hordered, rfl, hnothing, hsilent,
    (hlast _ _ rfl).2 ⟨[minuteLayer, null], tickLayer, [], rfl, rfl, nofun⟩, ?_,
    hnull [minuteLayer] [tickLayer] rfl, htext _ hnothing 1,
    htwice [minuteLayer, null] tickLayer [] rfl hordered⟩
  exact hkept [minuteLayer, null] tickLayer _ rfl hsilent

end Json

end MarketReplay
