import SwapDesk.Proofs.Balance.Lobby
import SwapDesk.Proofs.Decimal.Value
import SwapDesk.Proofs.Gateway.Replies
import SwapDesk.Proofs.Json.Paired

/-! The tokens of a reply, each by itself. Whether the reply can be decoded at all depends on all of
its tokens, but only on whether each name and each text is whole; what is then known of a token
depends on nothing but the last value given for it. -/
namespace SwapDesk

open Reading (under knownKeys)

variable {text text' : String} {fields fields' members members' : List (Option String × Reading)}
  {reply reply' : BalancesReply} {entry : BalanceEntry} {t : String} {r q : Reading} {x : Balance}

/-- The text is a well-formed object, and among its fields there is a single one called `balances`,
an object of these tokens. -/
structure BalancesReply.Spelled (text : String) (fields members : List (Option String × Reading)) :
    Prop where
  read : Reading.ofChars text.toList = (.record fields true, true)
  wellFormed : (Reading.record fields true).WellFormed
  single : under "balances" fields = [.record members true]

/-! ### Single values -/

/-- Every value is an entry that can be decoded as any JSON value at all. -/
theorem BalanceEntry.isOk_iff : (∃ e, decoder r = .ok e) ↔ ∃ j, Decoder.json r = .ok j := by
  unfold decoder
  cases Decoder.json r with
  | error f => simp [bind, Except.bind]
  | ok j => cases Decoder.decimal r <;> simp [bind, Except.bind, pure, Except.pure]

/-- An entry is an amount exactly if its value is a decimal. -/
theorem BalanceEntry.eq_amount_iff (h : decoder r = .ok entry) {d : Decimal} :
    entry = .amount d ↔ Decoder.decimal r = .ok d := by
  unfold decoder at h
  cases hj : Decoder.json r with
  | error f =>
    rw [hj] at h
    cases h
  | ok j =>
    rw [hj] at h
    cases hd : Decoder.decimal r with
    | error f =>
      simp only [hd, bind, Except.bind, pure, Except.pure, Except.ok.injEq] at h
      simp [← h]
    | ok d' =>
      simp only [hd, bind, Except.bind, pure, Except.pure, Except.ok.injEq] at h
      simp [← h]

/-! ### The whole reply -/

theorem knownKeys_singleton (k : String) (fields : List (Option String × Reading)) :
    knownKeys [k] fields = (under k fields).map fun _ => k := by
  induction fields with
  | nil => rfl
  | cons m fields ih =>
    obtain ⟨_ | k', r⟩ := m
    · exact ih
    · by_cases hk : k' = k
      · subst hk
        rw [Reading.knownKeys_cons_of_mem (List.mem_singleton_self k'), Reading.under_cons_self, ih,
          List.map_cons]
      · rw [Reading.knownKeys_cons_of_notMem (List.mem_singleton.not.mpr hk),
          Reading.under_cons_ne hk, ih]

namespace BalancesReply

/-- The reply is decoded from the tokens alone, if the names of its other fields are texts. -/
theorem Spelled.ofText_eq_ok (h : Spelled text fields members) :
    Decoder.ofText decoder text = .ok reply ↔
      none ∉ fields.map Prod.fst ∧
        Decoder.dictFrom BalanceEntry.decoder .empty members = .ok reply.balances := by
  have hdict : ∀ e, Decoder.dict BalanceEntry.decoder (.record members true) = .ok e ↔
      Decoder.dictFrom BalanceEntry.decoder .empty members = .ok e := by
    intro e
    rw [Decoder.dict]
    cases Decoder.dictFrom BalanceEntry.decoder .empty members <;>
      simp [bind, Except.bind, pure, Except.pure]
  have honly : ∀ q, (some "balances", q) ∈ fields ↔ q = .record members true := by
    intro q
    rw [← Reading.mem_under, h.single, List.mem_singleton]
  have hread : Decoder.ofText decoder text = .ok reply ↔
      Call.balances.Carries (.record fields true) reply := by
    rw [Decoder.ofText_eq_ok, h.read]
    constructor
    · rintro ⟨_, ⟨⟩, hd⟩
      exact Call.balances.decoder_eq_ok_iff.mp hd
    · intro hcarries
      exact ⟨_, rfl, Call.balances.decoder_eq_ok_iff.mpr hcarries⟩
  rw [hread, ← hdict]
  constructor
  · rintro ⟨found, hpresents, q, hq, hgives⟩
    cases hpresents with
    | record hkeys _ hfields _ =>
      cases (honly q).mp ((hfields _ (List.mem_singleton_self _) q).mp hq)
      exact ⟨hkeys, hgives⟩
  · rintro ⟨hkeys, hbalances⟩
    refine ⟨fun _ => some (.record members true), .record hkeys ?_ ?_ ?_, _, rfl, hbalances⟩
    · simp [knownKeys_singleton, h.single]
    · intro k hk q
      cases List.mem_singleton.mp hk
      rw [honly, Option.some.injEq, eq_comm]
    · intro k _ q hq
      exact (Reading.wellFormed_record.mp h.wellFormed _ hq).isWhole

theorem Spelled.wellFormed_member (h : Spelled text fields members) :
    ∀ m ∈ members, m.2.WellFormed := by
  have hm : (some "balances", .record members true) ∈ fields := by
    rw [← Reading.mem_under, h.single]
    exact List.mem_singleton_self _
  exact Reading.wellFormed_record.mp (Reading.wellFormed_record.mp h.wellFormed _ hm)

/-- The reply is decoded exactly if no name and none of the tokens' values has half of a surrogate
pair. -/
theorem Spelled.isOk_iff (h : Spelled text fields members) :
    (∃ reply, Decoder.ofText decoder text = .ok reply) ↔
      none ∉ fields.map Prod.fst ∧ (Reading.record members true).Paired := by
  have htokens : (∃ d, Decoder.dictFrom BalanceEntry.decoder .empty members = .ok d) ↔
      (Reading.record members true).Paired := by
    rw [Decoder.dictFrom_isOk_iff, Reading.paired_record]
    refine and_congr_right fun _ => forall₂_congr fun m hm => ?_
    exact BalanceEntry.isOk_iff.trans (Decoder.json_isOk_iff (h.wellFormed_member m hm))
  rw [← htokens]
  constructor
  · rintro ⟨reply, hreply⟩
    obtain ⟨hkeys, hd⟩ := h.ofText_eq_ok.mp hreply
    exact ⟨hkeys, _, hd⟩
  · rintro ⟨hkeys, d, hd⟩
    exact ⟨⟨d⟩, h.ofText_eq_ok.mpr ⟨hkeys, hd⟩⟩

/-- What is known of a token is its last value, read by itself. -/
theorem Spelled.find?_balances (h : Spelled text fields members)
    (hr : Decoder.ofText decoder text = .ok reply) (t : String) :
    (reply.balances.find? t).map .ok = (under t members).getLast?.map BalanceEntry.decoder := by
  obtain ⟨_, hd⟩ := h.ofText_eq_ok.mp hr
  cases hlast : (under t members).getLast? with
  | none =>
    have hkeys := Reading.under_eq_nil_iff.mp (List.getLast?_eq_none_iff.mp hlast)
    rw [Decoder.find?_dictFrom hd hkeys]
    rfl
  | some q =>
    obtain ⟨e, he, hfind⟩ := Decoder.find?_dictFrom_of_last hd hlast
    rw [hfind, Option.map_some, Option.map_some, he]

/-- The balances are those of the tokens whose last value is a decimal that is not negative. -/
theorem Spelled.find?_ofReply (h : Spelled text fields members)
    (hr : Decoder.ofText decoder text = .ok reply) :
    (BalanceMap.ofReply reply).find? t = some x ↔
      ∃ q d, (under t members).getLast? = some q ∧ Decoder.decimal q = .ok d ∧ 0 ≤ d.value ∧
        x = ⟨d, d⟩ := by
  have hsign : ∀ d : Decimal, d.isNegative = false ↔ 0 ≤ d.value := by
    intro d
    rw [← not_lt, ← Decimal.isNegative_iff, Bool.not_eq_true]
  have hamount : ∀ d, reply.balances.find? t = some (.amount d) ↔
      ∃ q, (under t members).getLast? = some q ∧ Decoder.decimal q = .ok d := by
    intro d
    have hfind := h.find?_balances hr t
    cases hlast : (under t members).getLast? with
    | none =>
      rw [hlast, Option.map_none, Option.map_eq_none_iff] at hfind
      simp [hfind]
    | some q =>
      rw [hlast, Option.map_some, Option.map_eq_some_iff] at hfind
      obtain ⟨entry, hentry, hdecode⟩ := hfind
      simp [hentry, ← BalanceEntry.eq_amount_iff hdecode.symm]
  simp only [Lobby.find?_ofReply, hamount, hsign]
  constructor
  · rintro ⟨d, ⟨q, hq, hd⟩, hrest⟩
    exact ⟨q, d, hq, hd, hrest⟩
  · rintro ⟨q, d, hq, hd, hrest⟩
    exact ⟨d, ⟨q, hq, hd⟩, hrest⟩

/-- A token whose last value is a text has the balance of that text. -/
theorem Spelled.find?_of_text {s : String} {d : Decimal}
    (h : Spelled text fields members) (hr : Decoder.ofText decoder text = .ok reply)
    (hlast : (under t members).getLast? = some (.text (some s))) (hd : Decimal.ofText? s = some d)
    (hsign : d.isNegative = false) : (BalanceMap.ofReply reply).find? t = some ⟨d, d⟩ := by
  have hdecode : Decoder.decimal (.text (some s)) = .ok d := by rw [Decoder.decimal, hd]
  have hvalue : 0 ≤ d.value := by
    rw [← not_lt, ← Decimal.isNegative_iff, hsign]
    exact Bool.false_ne_true
  exact (h.find?_ofReply hr).mpr ⟨_, d, hlast, hdecode, hvalue, rfl⟩

/-- A well-formed reply with a single object of balances is decoded whatever the values of its
tokens are, exactly but for halves of surrogate pairs: in a token's name, in its value, or in the
name of another field they spoil the whole reply. Otherwise the entry of each token depends only on
the last value given for it, and its balance is that value if it is a decimal that is not negative.
So a token has the same entry and the same balance in any two replies that give it the same last
value, whatever they say of others. -/
theorem tokens_decide_their_balances (h : Spelled text fields members) :
    ((∃ reply, Decoder.ofText decoder text = .ok reply) ↔
      none ∉ fields.map Prod.fst ∧ (Reading.record members true).Paired) ∧
    ∀ reply, Decoder.ofText decoder text = .ok reply →
      (∀ t, (reply.balances.find? t).map .ok =
        (under t members).getLast?.map BalanceEntry.decoder) ∧
      (∀ t x, (BalanceMap.ofReply reply).find? t = some x ↔
        ∃ q d, (under t members).getLast? = some q ∧ Decoder.decimal q = .ok d ∧ 0 ≤ d.value ∧
          x = ⟨d, d⟩) ∧
      ∀ text' fields' members' reply', Spelled text' fields' members' →
        Decoder.ofText decoder text' = .ok reply' →
        ∀ t, (under t members').getLast? = (under t members).getLast? →
          reply'.balances.find? t = reply.balances.find? t ∧
          (BalanceMap.ofReply reply').find? t = (BalanceMap.ofReply reply).find? t := by
  refine ⟨h.isOk_iff, fun reply hr => ⟨h.find?_balances hr, fun t x => h.find?_ofReply hr, ?_⟩⟩
  intro text' fields' members' reply' h' hr' t hsame
  constructor
  · have hentry := (h'.find?_balances hr' t).trans (hsame ▸ (h.find?_balances hr t).symm)
    exact Option.map_injective (fun _ _ he => Except.ok.inj he) hentry
  · refine Option.ext fun x => ?_
    rw [h.find?_ofReply hr, h'.find?_ofReply hr', hsame]

/-- The last value for `ADA` is a decimal; `N` has a list, `D` a decimal below zero. -/
def mixedTokens : List (Option String × Reading) :=
  [(some "ADA", .text (some "x")), (some "N", .list [.null] true),
    (some "ADA", .text (some "7.50")), (some "D", .number (some (.whole (-1))))]

/-- `ADA` has the balance it would have if there were no other tokens, and these have none. -/
theorem mixed_tokens_apart :
    ∃ reply alone, Decoder.ofText decoder
        "\x7b\"balances\":\x7b\"ADA\":\"x\",\"N\":[null],\"ADA\":\"7.50\",\"D\":-1\x7d\x7d" =
          .ok reply ∧
      Decoder.ofText decoder "\x7b\"balances\":\x7b\"ADA\":\"7.50\"\x7d\x7d" = .ok alone ∧
      ((BalanceMap.ofReply reply).find? "ADA").isSome ∧
      (BalanceMap.ofReply alone).find? "ADA" = (BalanceMap.ofReply reply).find? "ADA" ∧
      (BalanceMap.ofReply reply).find? "N" = none ∧
      (BalanceMap.ofReply reply).find? "D" = none := by
  have hmixed : Spelled
      "\x7b\"balances\":\x7b\"ADA\":\"x\",\"N\":[null],\"ADA\":\"7.50\",\"D\":-1\x7d\x7d"
      [(some "balances", .record mixedTokens true)] mixedTokens :=
    ⟨rfl, by simp [mixedTokens], rfl⟩
  have halone : Spelled "\x7b\"balances\":\x7b\"ADA\":\"7.50\"\x7d\x7d"
      [(some "balances", .record [(some "ADA", .text (some "7.50"))] true)]
      [(some "ADA", .text (some "7.50"))] :=
    ⟨rfl, by simp, rfl⟩
  obtain ⟨hok, hknown⟩ := tokens_decide_their_balances hmixed
  obtain ⟨reply, hr⟩ := hok.mpr (by simp [mixedTokens])
  obtain ⟨alone, ha⟩ := halone.isOk_iff.mpr (by simp)
  obtain ⟨_, hbalance, hsame⟩ := hknown reply hr
  refine ⟨reply, alone, hr, ha, ?_, (hsame _ _ _ _ halone ha "ADA" rfl).2, ?_, ?_⟩
  · rw [hmixed.find?_of_text hr rfl (d := ⟨750, 2, by decide, by decide⟩) (by decide +kernel)
      (by decide)]
    rfl
  · refine Option.eq_none_iff_forall_ne_some.mpr fun x hx => ?_
    obtain ⟨q, d, hq, hd, _⟩ := (hbalance "N" x).mp hx
    cases hq
    cases hd
  · refine Option.eq_none_iff_forall_ne_some.mpr fun x hx => ?_
    obtain ⟨q, d, hq, hd, hnonneg, _⟩ := (hbalance "D" x).mp hx
    cases hq
    have hneg : (Decoder.decimal (.number (some (.whole (-1))))).toOption.any (·.isNegative) := by
      decide +kernel
    change Decoder.decimal (.number (some (.whole (-1)))) = _ at hd
    rw [hd] at hneg
    exact not_lt.mpr hnonneg (Decimal.isNegative_iff.mp hneg)

/-- The same balance, beside half of a surrogate pair for another token. -/
def halvedTokens : List (Option String × Reading) :=
  [(some "ADA", .text (some "5")), (some "BAD", .text none)]

/-- Half of a surrogate pair for one token leaves no balance of any, though without that token `ADA`
has one. -/
theorem half_pair_spoils_reply :
    Spelled "\x7b\"balances\":\x7b\"ADA\":\"5\",\"BAD\":\"\\ud800\"\x7d\x7d"
        [(some "balances", .record halvedTokens true)] halvedTokens ∧
      (∀ reply, Decoder.ofText decoder
        "\x7b\"balances\":\x7b\"ADA\":\"5\",\"BAD\":\"\\ud800\"\x7d\x7d" ≠ .ok reply) ∧
      ∃ reply, Decoder.ofText decoder "\x7b\"balances\":\x7b\"ADA\":\"5\"\x7d\x7d" = .ok reply ∧
        ((BalanceMap.ofReply reply).find? "ADA").map (·.total.toText) = some "5" := by
  have hspelled : Spelled "\x7b\"balances\":\x7b\"ADA\":\"5\",\"BAD\":\"\\ud800\"\x7d\x7d"
      [(some "balances", .record halvedTokens true)] halvedTokens :=
    ⟨rfl, by simp [halvedTokens], rfl⟩
  have halone : Spelled "\x7b\"balances\":\x7b\"ADA\":\"5\"\x7d\x7d"
      [(some "balances", .record [(some "ADA", .text (some "5"))] true)]
      [(some "ADA", .text (some "5"))] :=
    ⟨rfl, by simp, rfl⟩
  obtain ⟨reply, hr⟩ := halone.isOk_iff.mpr (by simp)
  refine ⟨hspelled, fun reply h => ?_, ⟨reply, hr, ?_⟩⟩
  · obtain ⟨_, hpaired⟩ := hspelled.isOk_iff.mp ⟨reply, h⟩
    cases (Reading.paired_record.mp hpaired).2 (some "BAD", .text none) (by simp [halvedTokens])
  · rw [halone.find?_of_text hr rfl (d := .ofSmall 5 (by decide)) (by decide +kernel) (by decide)]
    decide +kernel
end BalancesReply
end SwapDesk
