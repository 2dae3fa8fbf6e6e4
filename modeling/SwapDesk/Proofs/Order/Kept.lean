import SwapDesk.Proofs.Json.Soundness
import SwapDesk.Proofs.Order.Storage

/-! Orders that come from a kept text. Whatever spelling the text has used, the orders read from it can be
written, and read from there they are the same. -/
namespace SwapDesk

/-- No value among the extras has a floating-point number in it. -/
def Dict.FloatFree (extras : Dict Json) : Prop :=
  ∀ k j, extras.find? k = some j → j.floatFree = true

namespace Order

variable {o : Order} {r : Reading} {n : Nat}

theorem canonical_of_pairDecoder {p : Pair} (h : pairDecoder r = .ok p) : p.Canonical := by
  rw [pairDecoder, bind_eq_ok] at h
  obtain ⟨raw, _, h⟩ := h
  split at h
  · rename_i hp
    cases h
    exact Pair.canonical_of_ofText? hp
  · cases h

theorem build_schema {readings : String → Option Reading} (h : schema.build readings = .ok o) :
    (Schema.required "trading_pair" pairDecoder).build readings = .ok o.pair ∧
      (Schema.defaulting "misc" (Decoder.dict Decoder.json) .empty).build readings = .ok o.extras := by
  simp only [schema, Schema.build_seq, Schema.build_map] at h
  -- The two counters stand behind the extras, and ten fields between the extras and the pair.
  iterate 2 obtain ⟨_, _, h, _, rfl⟩ := h
  obtain ⟨_, _, h, hextras, rfl⟩ := h
  iterate 10 obtain ⟨_, _, h, _, rfl⟩ := h
  obtain ⟨_, _, h, hpair, rfl⟩ := h
  obtain ⟨_, _, ⟨_, _, rfl⟩, _, rfl⟩ := h
  exact ⟨hpair, hextras⟩

/-- Whatever the text of an order is accepted as, the extras have the same keys again, and values as
their texts spell them. -/
theorem find?_extras_of_spelled {p : Order} (h : decoder (Reading.spelled n o.toJson) = .ok p)
    (hn : n + 1 < Reading.maxDepth) (k : String) :
    (p.extras.find? k).map .ok =
      (o.extras.find? k).map fun j => Decoder.json (Reading.spelled (n + 2) j) := by
  rw [toJson, Reading.spelled, Reading.sunk_of_lt (by omega), Reading.spelledFields_eq] at h
  obtain ⟨readings, hbuild, hall⟩ := Schema.build_of_members h
  have hmisc : readings "misc" =
      some (Reading.spelled (n + 1) (.ofDict (fun j => j) o.extras)) := by
    exact hall _ _ (by simp) rfl
  have hextras := (build_schema hbuild).2
  simp only [Schema.defaulting, hmisc] at hextras
  exact Decoder.find?_of_spelled hextras hn k

/-- A decoded order has a canonical pair, and its extras can be kept if they are free of floating-point
numbers. -/
theorem storable_of_decoder (hr : r.Within (extrasDepth + 2)) (h : decoder r = .ok o) :
    o.pair.Canonical ∧ (o.extras.FloatFree → o.extras.Storable) := by
  obtain ⟨readings, hbuild, hparts⟩ := Schema.build_of_decoder h
  obtain ⟨hpair, hextras⟩ := build_schema hbuild
  constructor
  · obtain ⟨q, _, hdecode⟩ := Schema.build_required.mp hpair
    exact canonical_of_pairDecoder hdecode
  · intro hfree k j hj
    rcases Schema.build_defaulting.mp hextras with ⟨_, hnone⟩ | ⟨q, hq, hdecode⟩
    · rw [hnone] at hj
      cases hj
    · obtain ⟨v, hv, hjson⟩ := Decoder.mem_of_dict hdecode hj
      have hwithin : v.Within extrasDepth := (hr.part (hparts _ q hq)).part hv
      obtain ⟨hsorted, hlegible⟩ := Decoder.json_sound hwithin hjson
      exact ⟨hsorted, hlegible (hfree k j hj)⟩

end Order

namespace Orders

variable {text : String} {orders kept : Orders}

theorem storable_of_ofText {id : String} {o : Order} (h : ofText text = .ok orders)
    (ho : orders.find? id = some o) :
    o.pair.Canonical ∧ (o.extras.FloatFree → o.extras.Storable) := by
  obtain ⟨r, hr, hdecode⟩ := Decoder.within_of_ofText h
  obtain ⟨q, hq, horder⟩ := Decoder.mem_of_dict hdecode ho
  exact Order.storable_of_decoder (hr.part hq) horder

/-- From a text that is accepted each order is read back, and the texts among its extras are what they
were. -/
theorem text_extra_of_ofText {id : String} {o : Order} (h : ofText orders.toText = .ok kept)
    (ho : orders.find? id = some o) :
    ∃ p, kept.find? id = some p ∧ ∀ k t, o.extras.find? k = some (.text t) →
      p.extras.find? k = some (.text t) := by
  have hread : decoder (Reading.spelled 0 (toJson orders)) = .ok kept :=
    (Decoder.ofText_render decoder (toJson orders) (some 0)).symm.trans h
  have hfind := Decoder.find?_of_spelled hread (by decide) id
  rw [ho] at hfind
  obtain ⟨p, hp, horder⟩ := Option.map_eq_some_iff.mp hfind
  refine ⟨p, hp, fun k t ht => ?_⟩
  have hextra := Order.find?_extras_of_spelled horder.symm (by decide) k
  rw [ht] at hextra
  obtain ⟨j, hj, hsame⟩ := Option.map_eq_some_iff.mp hextra
  cases hsame
  exact hj

/-- Orders that a text was accepted for are read back from their own text just as they are, and written
again they give the same text: there is one written form for whatever was accepted. -/
theorem accepted_orders_read_back (h : ofText text = .ok orders)
    (hfree : ∀ id o, orders.find? id = some o → o.extras.FloatFree) :
    ∃ again, ofText orders.toText = .ok again ∧ again = orders ∧ again.toText = orders.toText := by
  have hstorable : ∀ id o, orders.find? id = some o → o.extras.Storable := fun id o ho =>
    (storable_of_ofText h ho).2 (hfree id o ho)
  refine ⟨orders, (ofText_toText_iff hstorable).mpr fun id o ho => ?_, rfl, rfl⟩
  exact (storable_of_ofText h ho).1

/-- The order is an array. Among its items are a number and an exponent for decimals, a pair in lower
case, a side as the key of an object, another time zone, and one key twice among the extras. -/
theorem loosely_written_order_reads_back :
    let text := "\x7b\"a\": [\"x\", null, \" ada-usd \", \x7b\"SELL\": null\x7d, \"1.50e1\", 2, \"trade\",
      \"2024-01-02T03:04:05.25+01:00\", \"2024-01-02T03:04:05Z\", \"FAILED\", \"0\", null, \"lost\",
      \x7b\"z\": [\x7b\"\\u00e9\": -2\x7d], \"y\": true, \"y\": null\x7d]\x7d"
    ∃ orders, ofText text = .ok orders ∧ ofText orders.toText = .ok orders ∧
      orders.values.map (fun o =>
        [o.id, o.pair.toText, o.price.toText, o.createdAt.toText] ++ o.extras.keys) =
        [["x", "ADA-USD", "15.0", "2024-01-02T02:04:05.250Z", "y", "z"]] := by
  intro text
  have hread : (ofText text).toOption.map (fun orders =>
      (orders.values.map fun o =>
        [o.id, o.pair.toText, o.price.toText, o.createdAt.toText] ++ o.extras.keys,
        orders.values.all fun o => o.extras.values.all Json.floatFree)) =
      some ([["x", "ADA-USD", "15.0", "2024-01-02T02:04:05.250Z", "y", "z"]], true) := by
    decide +kernel
  cases htext : ofText text with
  | error f =>
    rw [htext] at hread
    cases hread
  | ok orders =>
    rw [htext] at hread
    obtain ⟨hvalues, hfree⟩ := Prod.mk.inj (Option.some.inj hread)
    have hextras : ∀ id o, orders.find? id = some o → o.extras.FloatFree := by
      intro id o ho k j hj
      have hall := List.all_eq_true.mp hfree o ((Dict.mem_values_iff _).mpr ⟨id, ho⟩)
      exact List.all_eq_true.mp hall j ((Dict.mem_values_iff _).mpr ⟨k, hj⟩)
    obtain ⟨again, hagain, rfl, _⟩ := accepted_orders_read_back htext hextras
    exact ⟨again, rfl, hagain, hvalues⟩

end Orders
end SwapDesk
