import TcMuzi.Base.CString

/-!
# Configured instance names

`CStrExplode` of `util.cc` and the loops of `CacheManager::Init` and `CDBManager::Init`
that go over its items.
-/

namespace TcMuzi
namespace Base

/-! ## `CStrExplode` -/

/-- The counting loop; `item_cnt_` is a `uint32_t`. -/
def countItems (seperator : UInt8) : List UInt8 → Nat
  | [] => 1
  | b :: pos =>
      if b = seperator then (countItems seperator pos + 1) % 4294967296
      else countItems seperator pos

/-- `len` and `len + 1` are of type `uint32_t`; `strncpy` runs out of an array of no bytes. -/
def newItem (segment : List UInt8) : Option CString :=
  let len := segment.length % 4294967296
  if (len + 1) % 4294967296 = 0 then none else some (CString.cStr (segment.take len))

/-- The splitting loop, with the bytes from `start` to `pos` and the ones from `pos` on. -/
def splitItems (seperator : UInt8) : List UInt8 → List UInt8 → List (Option CString)
  | segment, [] => if segment.length % 4294967296 = 0 then [] else [newItem segment]
  | segment, b :: pos =>
      if segment ≠ [] ∧ b = seperator then newItem segment :: splitItems seperator [] pos
      else splitItems seperator (segment ++ [b]) pos

/-- The items that were set, in the order of `idx`. -/
structure CStrExplode where
  itemCnt : Nat
  itemList : List (Option CString)

namespace CStrExplode

/-- The constructor; `idx` is an `int`. -/
def explode (str : CString) (seperator : UInt8) : CStrExplode where
  itemCnt := countItems seperator str.bytes
  itemList := (splitItems seperator [] str.bytes).take 2147483648

def getItemCnt (e : CStrExplode) : Nat := e.itemCnt

/-- `none` where the pointer was never set. -/
def getItem (e : CStrExplode) (idx : Nat) : Option CString := e.itemList[idx]?.join

end CStrExplode

/-! ## The loops over the instances -/

/-- How a manager's `Init` ends: a return code and the pools in the map, or the use of a
pointer that was never set. -/
inductive InitEnd
  | returned (code : Int) (pools : List CString)
  | garbage

/-- `snprintf` of `%s_host` and the like into 64 bytes. -/
def configName (poolName : CString) (suffix : String) : CString :=
  CString.cStr ((poolName ++ CString.lit suffix).bytes.take 63)

section Managers

variable (getConfigName : CString → Option CString)
  (initPool : CString → List CString → Int)

/-- One manager's loop, with the settings it reads for each instance. -/
def initInstances (settings : List String) :
    List (Option CString) → List CString → InitEnd
  | [], pools => .returned 0 pools
  | none :: _, _ => .garbage
  | some poolName :: rest, pools =>
      match settings.mapM fun setting => getConfigName (configName poolName setting) with
      | none => .returned 2 pools
      | some values =>
          if initPool poolName values ≠ 0 then .returned 3 pools
          else initInstances settings rest
            (if poolName ∈ pools then pools else pools ++ [poolName])

/-- `instances_name` and the loop over it. -/
def initManager (key : String) (settings : List String) : InitEnd :=
  match getConfigName (CString.lit key) with
  | none => .returned 1 []
  | some instances =>
      let instancesName := CStrExplode.explode instances 44
      initInstances getConfigName initPool settings
        ((List.range instancesName.getItemCnt).map instancesName.getItem) []

/-- `CacheManager::Init`. -/
def cacheManagerInit : InitEnd :=
  initManager getConfigName initPool "CacheInstances" ["_host", "_port", "_db", "_maxconncnt"]

/-- `CDBManager::Init`. -/
def dbManagerInit : InitEnd :=
  initManager getConfigName initPool "DBInstances"
    ["_host", "_port", "_dbname", "_username", "_password", "_maxconncnt"]

end Managers

/-! ## The names between the separators -/

/-- The texts between the separators. -/
def segments (str : CString) (seperator : UInt8) : List CString :=
  (str.bytes.splitOn seperator).map CString.cStr

/-- Every item is set, there is one more than there are separators, none of them contains
the separator, and together they are the text. -/
def Explodes (str : CString) (seperator : UInt8) (e : CStrExplode) : Prop :=
  ∃ items : List CString,
    (∀ i < e.getItemCnt, e.getItem i = items[i]?) ∧ items.length = e.getItemCnt ∧
      items.length = str.bytes.count seperator + 1 ∧
      (∀ item ∈ items, seperator ∉ item.bytes) ∧
      [seperator].intercalate (items.map CString.bytes) = str.bytes

/-- Both managers go over exactly the configured names. -/
def SeesNames (str : CString) : Prop :=
  ∀ (getConfigName : CString → Option CString) (initPool : CString → List CString → Int),
    (getConfigName (CString.lit "CacheInstances") = some str →
      cacheManagerInit getConfigName initPool =
        initInstances getConfigName initPool ["_host", "_port", "_db", "_maxconncnt"]
          ((segments str 44).map some) []) ∧
    (getConfigName (CString.lit "DBInstances") = some str →
      dbManagerInit getConfigName initPool =
        initInstances getConfigName initPool
          ["_host", "_port", "_dbname", "_username", "_password", "_maxconncnt"]
          ((segments str 44).map some) [])

/-- No text between separators is empty, and the lengths fit the loop's integers. -/
def Explodable (str : CString) (seperator : UInt8) : Prop :=
  (∀ segment ∈ str.bytes.splitOn seperator, segment ≠ [] ∧ segment.length < 4294967295) ∧
    str.bytes.count seperator < 2147483648

section Loops

variable {seperator : UInt8}

theorem modifyHead_self (texts : List (List UInt8)) :
    texts.modifyHead ([] ++ ·) = texts :=
  congrFun List.modifyHead_id texts

theorem length_splitOn (bytes : List UInt8) :
    (bytes.splitOn seperator).length = bytes.count seperator + 1 := by
  induction bytes with
  | nil => rfl
  | cons b bytes ih =>
      rw [List.splitOn_cons_eq_if_modifyHead, List.count_cons]
      by_cases hb : b = seperator
      · simp [hb, ih]
      · simp [hb, ih]

/-- The texts hold the bytes that are not separators. -/
theorem mem_of_mem_splitOn {bytes segment : List UInt8} {b : UInt8}
    (hsegment : segment ∈ bytes.splitOn seperator) (hb : b ∈ segment) :
    b ∈ bytes ∧ b ≠ seperator := by
  induction bytes generalizing segment b with
  | nil =>
      obtain rfl : segment = [] := by simpa using hsegment
      cases hb
  | cons a bytes ih =>
      rw [List.splitOn_cons_eq_if_modifyHead] at hsegment
      obtain ⟨first, rest, hsplit⟩ :=
        List.exists_cons_of_ne_nil (List.splitOn_ne_nil seperator bytes)
      have hfirst : ∀ c ∈ first, c ∈ bytes ∧ c ≠ seperator :=
        fun c hc => ih (by simp [hsplit]) hc
      split at hsegment
      case isTrue =>
        rcases List.mem_cons.mp hsegment with rfl | hmem
        · cases hb
        · exact (ih hmem hb).imp_left (List.mem_cons_of_mem a)
      case isFalse ha =>
        rw [hsplit, List.modifyHead_cons, List.mem_cons] at hsegment
        rcases hsegment with rfl | hmem
        · rcases List.mem_cons.mp hb with rfl | hb
          · exact ⟨List.mem_cons_self, by simpa using ha⟩
          · exact (hfirst b hb).imp_left (List.mem_cons_of_mem a)
        · exact (ih (by simp [hsplit, hmem]) hb).imp_left (List.mem_cons_of_mem a)

theorem countItems_eq (bytes : List UInt8) :
    countItems seperator bytes = (bytes.count seperator + 1) % 4294967296 := by
  induction bytes with
  | nil => rfl
  | cons b bytes ih =>
      rw [countItems, List.count_cons]
      by_cases hb : b = seperator
      · simp only [hb, if_true, beq_self_eq_true, ih]
        omega
      · simp only [hb, if_false, beq_iff_eq, ih]

/-- The loop sets no more items than were counted. -/
theorem length_splitItems_le (seperator : UInt8) (segment bytes : List UInt8) :
    (splitItems seperator segment bytes).length ≤ bytes.count seperator + 1 := by
  induction bytes generalizing segment with
  | nil =>
      rw [splitItems]
      split <;> simp
  | cons b bytes ih =>
      rw [splitItems, List.count_cons]
      split
      case isTrue h =>
        have := ih []
        simp only [List.length_cons, h.2, beq_self_eq_true, if_true]
        omega
      case isFalse =>
        have := ih (segment ++ [b])
        omega

/-- `start` is not moved behind a separator it stands on, so that one item is missing for
every empty text between separators. -/
theorem splitItems_of_length (seperator : UInt8) (segment bytes : List UInt8)
    (h : (splitItems seperator segment bytes).length = bytes.count seperator + 1) :
    splitItems seperator segment bytes =
        ((bytes.splitOn seperator).modifyHead (segment ++ ·)).map newItem ∧
      [] ∉ (bytes.splitOn seperator).modifyHead (segment ++ ·) := by
  induction bytes generalizing segment with
  | nil =>
      rw [splitItems] at h ⊢
      split at h
      case isTrue => simp at h
      case isFalse hlen =>
        have hne : segment ≠ [] := by
          rintro rfl
          exact hlen rfl
        simp [hlen, hne]
  | cons b bytes ih =>
      rw [splitItems] at h ⊢
      rw [List.splitOn_cons_eq_if_modifyHead]
      rw [List.count_cons] at h
      by_cases hb : b = seperator
      · by_cases hsegment : segment = []
        · -- one separator more was counted than the loop can still split at
          have hle := length_splitItems_le seperator (segment ++ [b]) bytes
          simp only [hb, hsegment, ne_eq, not_true_eq_false, false_and, if_false,
            beq_self_eq_true, if_true] at h hle
          omega
        · simp only [hb, hsegment, ne_eq, not_false_eq_true, true_and, if_true,
            beq_self_eq_true, List.length_cons] at h ⊢
          obtain ⟨hitems, hne⟩ := ih [] (by omega)
          rw [modifyHead_self] at hitems hne
          exact ⟨by simp [hitems], by simp [hsegment, hne]⟩
      · simp only [hb, and_false, if_false, beq_iff_eq, Nat.add_zero] at h ⊢
        obtain ⟨hitems, hne⟩ := ih (segment ++ [b]) h
        have happend : (fun text => segment ++ [b] ++ text) =
            (segment ++ ·) ∘ List.cons b := by
          funext text
          simp
        rw [happend] at hitems hne
        exact ⟨by rw [hitems, List.modifyHead_modifyHead],
          by rwa [List.modifyHead_modifyHead]⟩

/-- Nothing is lost from texts that are not empty and fit a `uint32_t`. -/
theorem splitItems_eq_map (seperator : UInt8) (segment bytes : List UInt8)
    (h : ∀ text ∈ (bytes.splitOn seperator).modifyHead (segment ++ ·),
      text ≠ [] ∧ text.length < 4294967295) :
    splitItems seperator segment bytes =
      ((bytes.splitOn seperator).modifyHead (segment ++ ·)).map newItem := by
  induction bytes generalizing segment with
  | nil =>
      have hsegment := h segment (by simp)
      have hpos := List.length_pos_iff.mpr hsegment.1
      rw [splitItems, if_neg (by omega)]
      simp
  | cons b bytes ih =>
      rw [List.splitOn_cons_eq_if_modifyHead] at h ⊢
      rw [splitItems]
      by_cases hb : b = seperator
      · simp only [hb, beq_self_eq_true, if_true, List.modifyHead_cons, List.append_nil,
          List.forall_mem_cons] at h ⊢
        rw [if_pos ⟨h.1.1, trivial⟩, ih [] (by rw [modifyHead_self]; exact h.2)]
        simp only [modifyHead_self, List.map_cons]
      · have happend : (fun text => segment ++ [b] ++ text) =
            (segment ++ ·) ∘ List.cons b := by
          funext text
          simp
        simp only [hb, beq_iff_eq, if_false, and_false, List.modifyHead_modifyHead] at h ⊢
        rw [ih (segment ++ [b]) (by rwa [happend]), happend]

theorem newItem_eq_some {segment : List UInt8} (h : segment.length < 4294967295) :
    newItem segment = some (CString.cStr segment) := by
  have hlen : segment.length % 4294967296 = segment.length := Nat.mod_eq_of_lt (by omega)
  rw [newItem, hlen, if_neg (by omega), List.take_length]

theorem length_lt_of_newItem {segment : List UInt8} {item : CString}
    (h : newItem segment = some item) (hbytes : item.bytes = segment) :
    segment.length < 4294967295 := by
  rw [newItem] at h
  split at h
  case isTrue => cases h
  case isFalse hlen =>
    obtain rfl := Option.some.inj h
    have hle : segment.length ≤ (segment.take (segment.length % 4294967296)).length := by
      conv => lhs; rw [← hbytes]
      exact (List.takeWhile_sublist _).length_le
    rw [List.length_take] at hle
    omega

end Loops

/-! ## When the items are the names -/

section Explode

variable {str : CString} {seperator : UInt8}

theorem bytes_cStr_of_mem_splitOn {segment : List UInt8}
    (h : segment ∈ str.bytes.splitOn seperator) : (CString.cStr segment).bytes = segment :=
  CString.bytes_cStr fun hzero => str.nulFree (mem_of_mem_splitOn h hzero).1

theorem bytes_segments (str : CString) (seperator : UInt8) :
    (segments str seperator).map CString.bytes = str.bytes.splitOn seperator := by
  rw [segments, List.map_map]
  conv => rhs; rw [← List.map_id (str.bytes.splitOn seperator)]
  exact List.map_congr_left fun segment h => bytes_cStr_of_mem_splitOn h

theorem length_segments (str : CString) (seperator : UInt8) :
    (segments str seperator).length = str.bytes.count seperator + 1 := by
  rw [segments, List.length_map, length_splitOn]

theorem getItem_explode (i : Nat) :
    (CStrExplode.explode str seperator).getItem i =
      if i < 2147483648 then (splitItems seperator [] str.bytes)[i]?.join else none := by
  rw [CStrExplode.getItem, CStrExplode.explode, List.getElem?_take]
  split <;> rfl

/-- The items in order are the texts between the separators. -/
theorem getItem_of_explodable (h : Explodable str seperator) (i : Nat) :
    (CStrExplode.explode str seperator).getItem i = (segments str seperator)[i]? := by
  have hitems := splitItems_eq_map seperator [] str.bytes
    (by rw [modifyHead_self]; exact h.1)
  rw [modifyHead_self] at hitems
  have hnew : (str.bytes.splitOn seperator).map newItem =
      (segments str seperator).map some := by
    rw [segments, List.map_map]
    exact List.map_congr_left fun segment hmem => newItem_eq_some (h.1 segment hmem).2
  rw [getItem_explode, hitems, hnew, List.getElem?_map]
  have hlen := length_segments str seperator
  split
  case isTrue => cases (segments str seperator)[i]? <;> rfl
  case isFalse hi =>
    have := h.2
    exact (List.getElem?_eq_none (by omega)).symm

theorem getItemCnt_of_explodable (h : Explodable str seperator) :
    (CStrExplode.explode str seperator).getItemCnt = str.bytes.count seperator + 1 := by
  have hcount := h.2
  change countItems seperator str.bytes = _
  rw [countItems_eq]
  omega

theorem explodes_of_explodable (h : Explodable str seperator) :
    Explodes str seperator (CStrExplode.explode str seperator) := by
  refine ⟨segments str seperator, fun i _ => getItem_of_explodable h i, ?_,
    length_segments str seperator, ?_, ?_⟩
  · rw [length_segments, getItemCnt_of_explodable h]
  · intro item hitem
    have hmem : item.bytes ∈ str.bytes.splitOn seperator := by
      rw [← bytes_segments]
      exact List.mem_map_of_mem hitem
    exact fun hsep => (mem_of_mem_splitOn hmem hsep).2 rfl
  · rw [bytes_segments, List.intercalate_splitOn]

/-- The managers ask for the items one after the other. -/
theorem items_of_explodable (h : Explodable str seperator) :
    (List.range (CStrExplode.explode str seperator).getItemCnt).map
        (CStrExplode.explode str seperator).getItem =
      (segments str seperator).map some := by
  rw [getItemCnt_of_explodable h, ← length_segments]
  apply List.ext_getElem
  · simp
  · intro i hi hi'
    simp only [List.length_map, List.length_range] at hi
    simp [getItem_of_explodable h, hi]

theorem explodable_of_explodes
    (h : Explodes str seperator (CStrExplode.explode str seperator)) :
    Explodable str seperator := by
  obtain ⟨items, hget, hcnt, hcount, hsep, hjoin⟩ := h
  have hset : ∀ i (hi : i < items.length), i < 2147483648 ∧
      (splitItems seperator [] str.bytes)[i]? = some (some items[i]) := by
    intro i hi
    have hitem := hget i (by omega)
    rw [getItem_explode, List.getElem?_eq_getElem hi] at hitem
    split at hitem
    case isTrue hlt => exact ⟨hlt, Option.join_eq_some_iff.mp hitem⟩
    case isFalse => cases hitem
  obtain ⟨hlast, hlastItem⟩ := hset (str.bytes.count seperator) (by omega)
  have hmax := (List.getElem?_eq_some_iff.mp hlastItem).1
  have hle := length_splitItems_le seperator [] str.bytes
  obtain ⟨hitems, hne⟩ := splitItems_of_length seperator [] str.bytes (by omega)
  rw [modifyHead_self] at hitems hne
  have hsplit : str.bytes.splitOn seperator = items.map CString.bytes := by
    conv => lhs; rw [← hjoin]
    apply List.splitOn_intercalate
    · simpa using hsep
    · have : items ≠ [] := List.length_pos_iff.mp (by omega)
      simpa using this
  refine ⟨fun segment hsegment => ⟨fun hnil => hne (hnil ▸ hsegment), ?_⟩, hlast⟩
  rw [hsplit] at hsegment
  obtain ⟨i, hi, rfl⟩ := List.getElem_of_mem hsegment
  rw [List.length_map] at hi
  have hnew := (hset i hi).2
  rw [hitems, hsplit, List.map_map, List.getElem?_map, List.getElem?_eq_getElem hi] at hnew
  rw [List.getElem_map]
  exact length_lt_of_newItem (Option.some.inj hnew) rfl

theorem seesNames_of_explodable (h : Explodable str 44) : SeesNames str := by
  intro getConfigName initPool
  constructor
  · intro hconfig
    simp only [cacheManagerInit, initManager, hconfig, items_of_explodable h]
  · intro hconfig
    simp only [dbManagerInit, initManager, hconfig, items_of_explodable h]

/-- `CStrExplode` finds what stands between the separators, and both managers its items,
exactly where no two separators touch and none is at an end. -/
theorem explodes_iff (str : CString) (seperator : UInt8) :
    Explodes str seperator (CStrExplode.explode str seperator) ∧
        (seperator = 44 → SeesNames str) ↔
      Explodable str seperator := by
  constructor
  · exact fun h => explodable_of_explodes h.1
  · intro h
    refine ⟨explodes_of_explodable h, ?_⟩
    rintro rfl
    exact seesNames_of_explodable h

example :
    (CStrExplode.explode (CString.lit "token,ranking_list") 44).getItem 1 =
      some (CString.lit "ranking_list") := by
  decide +kernel

/-- The second of two commas in a row starts an item, and the third item is never set. -/
theorem not_explodes_adjacent :
    ¬ Explodes (CString.lit "a,,b") 44 (CStrExplode.explode (CString.lit "a,,b") 44) := by
  rintro ⟨items, hget, hcnt, -⟩
  have hlen : items.length = 3 := hcnt.trans (by decide)
  have hitem : none = items[2]? := hget 2 (by decide)
  simp [hlen] at hitem

end Explode

end Base
end TcMuzi
