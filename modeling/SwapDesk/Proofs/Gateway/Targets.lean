import SwapDesk.Gateway.Exchange
import SwapDesk.Proofs.Text.Mappings
import SwapDesk.Proofs.Text.Utf8

/-! The target that asks for the state of a network. Its parameters are read back as they were,
whatever is in their texts. -/
namespace SwapDesk

variable {chain network : String} {b : UInt8} {c : Char} {cs : List Char}

/-! ### Percent encoding -/

/-- The characters of encoded texts: what stands for itself, and the percent sign. -/
def isEncoded (c : Char) : Bool :=
  ('0' ≤ c && c ≤ '9') || ('A' ≤ c && c ≤ 'Z') || ('a' ≤ c && c ≤ 'z') ||
    c ∈ ['-', '_', '.', '~', '%']

theorem hexValue?_upperHexDigit : ∀ d < 16, Reading.hexValue? (upperHexDigit d) = some d := by decide

theorem isEncoded_upperHexDigit : ∀ d < 16, isEncoded (upperHexDigit d) = true := by decide

theorem code_of_isPlainByte (h : isPlainByte b = true) : b.toNat < 128 ∧ b.toNat ≠ 0x25 := by
  simp only [isPlainByte, Bool.or_eq_true, Bool.and_eq_true, decide_eq_true_eq, beq_iff_eq] at h
  omega

theorem toNat_of_isPlainByte (h : isPlainByte b = true) : (Char.ofNat b.toNat).toNat = b.toNat :=
  toNat_charOfNat (.inl (Nat.lt_trans (code_of_isPlainByte h).1 (by decide)))

theorem isEncoded_of_isPlainByte (h : isPlainByte b = true) :
    isEncoded (Char.ofNat b.toNat) = true := by
  have hcode : (Char.ofNat b.toNat).val.toNat = b.toNat := toNat_of_isPlainByte h
  simp only [isPlainByte, Bool.or_eq_true, Bool.and_eq_true, decide_eq_true_eq, beq_iff_eq] at h
  simp only [isEncoded, Bool.or_eq_true, Bool.and_eq_true, decide_eq_true_eq, Char.le_def,
    UInt32.le_iff_toNat_le, hcode, Char.reduceVal, UInt32.reduceToNat]
  rcases h with (((h | h) | h) | h) | h
  · exact .inl (by omega)
  all_goals
    rw [h]
    exact .inr (by decide)

theorem isEncoded_of_mem_percentByte (h : c ∈ percentByte b) : isEncoded c = true := by
  have hb := b.toNat_lt
  unfold percentByte at h
  split at h
  · rename_i hplain
    rw [List.mem_singleton.mp h]
    exact isEncoded_of_isPlainByte hplain
  · rcases List.mem_cons.mp h with rfl | h
    · rfl
    · rcases List.mem_cons.mp h with rfl | h
      · exact isEncoded_upperHexDigit _ (by omega)
      · rw [List.mem_singleton.mp h]
        exact isEncoded_upperHexDigit _ (by omega)

theorem percentBytes?_plain (h : c.toNat < 128) (hc : c ≠ '%') :
    percentBytes? (c :: cs) = (percentBytes? cs).map (UInt8.ofNat c.toNat :: ·) := by
  rw [percentBytes?]
  · rw [if_neg (by simp [hc, h])]
    cases percentBytes? cs <;> rfl
  · rintro _ _ _ rfl
    exact absurd rfl hc

theorem percentBytes?_percentByte (b : UInt8) (cs : List Char) :
    percentBytes? (percentByte b ++ cs) = (percentBytes? cs).map (b :: ·) := by
  have hb := b.toNat_lt
  unfold percentByte
  split
  · rename_i hplain
    have hcode := code_of_isPlainByte hplain
    have hnat := toNat_of_isPlainByte hplain
    have hne : Char.ofNat b.toNat ≠ '%' := fun he => hcode.2 (by rw [← hnat, he]; rfl)
    rw [List.cons_append, List.nil_append, percentBytes?_plain (by rw [hnat]; exact hcode.1) hne,
      hnat, UInt8.ofNat_toNat]
  · have hhigh := hexValue?_upperHexDigit (b.toNat / 16) (by omega)
    have hlow := hexValue?_upperHexDigit (b.toNat % 16) (Nat.mod_lt _ (by decide))
    simp only [List.cons_append, List.nil_append, percentBytes?, hhigh, hlow, Nat.div_add_mod,
      UInt8.ofNat_toNat, Option.bind_eq_bind, Option.bind_some]
    cases percentBytes? cs <;> rfl

theorem percentBytes?_flatMap (bytes : List UInt8) :
    percentBytes? (bytes.flatMap percentByte) = some bytes := by
  induction bytes with
  | nil => rfl
  | cons b bytes ih => rw [List.flatMap_cons, percentBytes?_percentByte, ih]; rfl

/-- The text that an encoded one stands for. -/
def percentText? (cs : List Char) : Option String := percentBytes? cs >>= decodeUtf8?

theorem percentText?_percentEncode (s : String) : percentText? (percentEncode s).toList = some s := by
  rw [percentText?, percentEncode, String.toList_ofList, percentBytes?_flatMap]
  exact decodeUtf8?_toUTF8 s

theorem isEncoded_of_mem_percentEncode {s : String} (h : c ∈ (percentEncode s).toList) :
    isEncoded c = true := by
  rw [percentEncode, String.toList_ofList] at h
  obtain ⟨b, _, hb⟩ := List.mem_flatMap.mp h
  exact isEncoded_of_mem_percentByte hb

/-- Separators are not among the characters of encoded texts. -/
theorem notMem_percentEncode (h : isEncoded c = false) (s : String) : c ∉ (percentEncode s).toList := by
  intro hmem
  rw [isEncoded_of_mem_percentEncode hmem] at h
  cases h

/-! ### Parameters -/

/-- What a target asks with: the text after its first question mark, taken apart at every `&` and
each part at every `=`, and then decoded. -/
def parameters (target : String) : List (List (Option String)) :=
  (((target.toList.dropWhile (· != '?')).drop 1).splitOn '&').map fun part =>
    (part.splitOn '=').map percentText?

/-- A parameter as it is written. -/
def parameter (name value : String) : List Char := name.toList ++ '=' :: (percentEncode value).toList

theorem splitOn_parameter (name value : String) (h : '=' ∉ name.toList) :
    (parameter name value).splitOn '=' = [name.toList, (percentEncode value).toList] := by
  have hvalue : '=' ∉ (percentEncode value).toList := notMem_percentEncode (by decide) value
  have hparts : (['='].intercalate [name.toList, (percentEncode value).toList]).splitOn '=' =
      [name.toList, (percentEncode value).toList] :=
    List.splitOn_intercalate '=' (by simp [h, hvalue]) (by simp)
  simpa [parameter] using hparts

theorem notMem_parameter {name : String} (h : '&' ∉ name.toList) (value : String) :
    '&' ∉ parameter name value := by
  have hvalue : '&' ∉ (percentEncode value).toList := notMem_percentEncode (by decide) value
  simp [parameter, h, hvalue]

theorem of_mem_parameter {name value : String} (hname : name.toList.all isEncoded = true)
    (h : c ∈ parameter name value) : isEncoded c = true ∨ c = '=' := by
  rcases List.mem_append.mp h with h | h
  · exact .inl (List.all_eq_true.mp hname c h)
  · rcases List.mem_cons.mp h with h | h
    · exact .inr h
    · exact .inl (isEncoded_of_mem_percentEncode h)

theorem toList_statusTarget (chain network : String) :
    (statusTarget chain network).toList = "/chain/status".toList ++ '?' ::
      (parameter "chain" chain ++ '&' :: parameter "network" network) := by
  have hfront : "/chain/status?chain=".toList =
      "/chain/status".toList ++ '?' :: ("chain".toList ++ ['=']) := by decide
  have hmiddle : "&network=".toList = '&' :: ("network".toList ++ ['=']) := by decide
  unfold statusTarget
  simp only [parameter, String.toList_append, hfront, hmiddle, List.append_assoc, List.cons_append,
    List.nil_append]

/-- The path and the query. -/
theorem split_path (rest : List Char) :
    ("/chain/status".toList ++ '?' :: rest).takeWhile (· != '?') = "/chain/status".toList ∧
      ("/chain/status".toList ++ '?' :: rest).dropWhile (· != '?') = '?' :: rest :=
  ⟨rfl, rfl⟩

theorem parameters_statusTarget (chain network : String) :
    parameters (statusTarget chain network) =
      [[some "chain", some chain], [some "network", some network]] := by
  have hquery : ((statusTarget chain network).toList.dropWhile (· != '?')).drop 1 =
      ['&'].intercalate [parameter "chain" chain, parameter "network" network] := by
    rw [toList_statusTarget, (split_path _).2]
    simp
  have hsplit : (['&'].intercalate [parameter "chain" chain, parameter "network" network]).splitOn '&' =
      [parameter "chain" chain, parameter "network" network] :=
    List.splitOn_intercalate '&' (by simp [notMem_parameter]) (by simp)
  have hchain : percentText? "chain".toList = some "chain" := by decide +kernel
  have hnetwork : percentText? "network".toList = some "network" := by decide +kernel
  rw [parameters, hquery, hsplit]
  simp only [List.map_cons, List.map_nil, splitOn_parameter "chain" chain (by decide),
    splitOn_parameter "network" network (by decide), percentText?_percentEncode, hchain, hnetwork]

theorem of_mem_statusTarget (h : c ∈ (statusTarget chain network).toList) :
    isEncoded c = true ∨ c ∈ ['/', '?', '&', '='] := by
  have hpath : "/chain/status".toList.all (fun c => isEncoded c || c == '/') = true := by decide
  rw [toList_statusTarget] at h
  simp only [List.mem_append, List.mem_cons] at h
  rcases h with h | rfl | h | rfl | h
  · have hc := List.all_eq_true.mp hpath c h
    simp only [Bool.or_eq_true, beq_iff_eq] at hc
    exact hc.imp_right fun he => by simp [he]
  · exact .inr (by decide)
  · exact (of_mem_parameter (by decide) h).imp_right fun he => by simp [he]
  · exact .inr (by decide)
  · exact (of_mem_parameter (by decide) h).imp_right fun he => by simp [he]

/-- Whatever the names of a chain and of a network are, the target that asks about them has exactly
two parameters, and these are the names. Its characters stand for themselves, but for the separators
and the percent sign. Different names have different targets. -/
theorem status_target_tells_names (chain network : String) :
    (statusTarget chain network).toList.takeWhile (· != '?') = "/chain/status".toList ∧
    parameters (statusTarget chain network) =
      [[some "chain", some chain], [some "network", some network]] ∧
    (∀ c ∈ (statusTarget chain network).toList, isEncoded c = true ∨ c ∈ ['/', '?', '&', '=']) ∧
    ∀ chain' network', statusTarget chain' network' = statusTarget chain network ↔
      chain' = chain ∧ network' = network := by
  refine ⟨?_, parameters_statusTarget chain network, fun c => of_mem_statusTarget,
    fun chain' network' => ⟨fun hsame => ?_, ?_⟩⟩
  · rw [toList_statusTarget]
    exact (split_path _).1
  · have hread := parameters_statusTarget chain' network'
    rw [hsame, parameters_statusTarget] at hread
    cases hread
    exact ⟨rfl, rfl⟩
  · rintro ⟨rfl, rfl⟩
    rfl

/-- Names that look like parameters or like encoded text. -/
theorem odd_names_read_back :
    statusTarget "a&network=b#" "%41 é" =
        "/chain/status?chain=a%26network%3Db%23&network=%2541%20%C3%A9" ∧
      parameters (statusTarget "a&network=b#" "%41 é") =
        [[some "chain", some "a&network=b#"], [some "network", some "%41 é"]] ∧
      '%' ∈ (statusTarget "a&network=b#" "%41 é").toList ∧
      (isEncoded '%' = true ∨ '%' ∈ ['/', '?', '&', '=']) ∧
      statusTarget "a&network=b#" "A é" ≠ statusTarget "a&network=b#" "%41 é" := by
  have htarget : statusTarget "a&network=b#" "%41 é" =
      "/chain/status?chain=a%26network%3Db%23&network=%2541%20%C3%A9" := by decide +kernel
  have hpercent : '%' ∈ (statusTarget "a&network=b#" "%41 é").toList := by
    rw [htarget]
    decide
  have hother : ¬("a&network=b#" = "a&network=b#" ∧ "A é" = "%41 é") := by decide
  obtain ⟨_, hread, hchars, honly⟩ := status_target_tells_names "a&network=b#" "%41 é"
  exact ⟨htarget, hread, hpercent, hchars _ hpercent, fun hsame => hother ((honly _ _).mp hsame)⟩

end SwapDesk
