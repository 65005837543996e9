import TcMuzi.Redis.Hiredis

/-!
# `MGet`

`MGet` puts its keys into the format of a command and pairs the replies with the keys by their
positions.  `Get` passes its key as an argument.
-/

namespace TcMuzi
namespace Redis
namespace MGet

open Base Hiredis

/-! ## The server -/

/-- The strings of a database. -/
abbrev Content := List UInt8 → Option (List UInt8)

/-- A reply to `GET` or `MGET`; in an array, `none` is a nil reply. -/
inductive StringReply
  | string (str : List UInt8)
  | nil
  | array (elements : List (Option (List UInt8)))
  | error

def getName : List UInt8 := [71, 69, 84]
def mgetName : List UInt8 := [77, 71, 69, 84]

/-- What the server answers. -/
def serve (content : Content) : List (List UInt8) → StringReply
  | [] => .error
  | command :: args =>
      if command = mgetName ∧ args ≠ [] then .array (args.map content)
      else
        match decide (command = getName), args with
        | true, [key] =>
            match content key with
            | some str => .string str
            | none => .nil
        | _, _ => .error

/-- `redisCommand` while the connection holds: a reply, `NULL` or undefined behaviour. -/
inductive CommandEnd
  | reply (r : StringReply)
  | null
  | undefined

def redisCommand (content : Content) (format : CString) (ap : List (List UInt8)) : CommandEnd :=
  match formatCommand format ap with
  | .command argv => .reply (serve content argv)
  | .formatError => .null
  | .undefined => .undefined

/-! ## `Get` and `MGet` -/

/-- `c_str()`. -/
def cut (text : List UInt8) : List UInt8 := (CString.cStr text).bytes

/-- `"GET %s"`. -/
def getFormat : CString := CString.cStr (getName ++ [space, percent, 115])

/-- The reply to the command of `Get`. -/
def getReply (content : Content) (key : List UInt8) : CommandEnd :=
  redisCommand content getFormat [cut key]

def get (content : Content) (key : List UInt8) : List UInt8 :=
  match getReply content key with
  | .reply (.string str) => str
  | _ => []

/-- The loop that appends the other keys to `strKey`. -/
def joinFrom (strKey : List UInt8) : List (List UInt8) → List UInt8
  | [] => strKey
  | key :: keys => joinFrom (strKey ++ space :: key) keys

def joinKeys : List (List UInt8) → List UInt8
  | [] => []
  | key :: keys => joinFrom key keys

/-- `("MGET " + strKey).c_str()`. -/
def mgetFormat (keys : List (List UInt8)) : CString :=
  CString.cStr (mgetName ++ space :: joinKeys keys)

abbrev ValueMap := Std.TreeMap (List UInt8) (List UInt8)

/-- The loop over the elements, `none` where a string has no key; `child_reply->str` ends at its
first NUL. -/
def storeReplies : List (List UInt8) → List (Option (List UInt8)) → ValueMap → Option ValueMap
  | _, [], retValue => some retValue
  | [], none :: elements, retValue => storeReplies [] elements retValue
  | [], some _ :: _, _ => none
  | _ :: keys, none :: elements, retValue => storeReplies keys elements retValue
  | key :: keys, some str :: elements, retValue =>
      storeReplies keys elements (retValue.insert key (cut str))

/-- The return value and the map, or `none` where the behaviour is undefined. -/
def mget (content : Content) (keys : List (List UInt8)) (retValue : ValueMap) :
    Option (Bool × ValueMap) :=
  if joinKeys keys = [] then some (false, retValue)
  else
    match redisCommand content (mgetFormat keys) [] with
    | .reply (.array elements) =>
        (storeReplies keys elements retValue).map fun retValue => (true, retValue)
    -- an error is no array, and the map stays as it is
    | .reply _ => some (true, retValue)
    | .null => some (false, retValue)
    | .undefined => none

/-! ## Agreement -/

/-- When `MGet` returns true, its map holds what `GET` returns for the keys. -/
def Agrees (content : Content) (keys : List (List UInt8)) : Prop :=
  ∃ ret retValue, mget content keys ∅ = some (ret, retValue) ∧
    (ret = true → ∀ (key str : List UInt8), retValue[key]? = some str ↔
      key ∈ keys ∧ getReply content key = .reply (.string str))

/-- The keys that get into the format: all up to the first one with a NUL. -/
def sentKeys : List (List UInt8) → List (List UInt8)
  | [] => []
  | key :: keys => if 0 ∈ key then [key] else key :: sentKeys keys

/-- No command is sent, for every content. -/
def Refused (keys : List (List UInt8)) : Prop :=
  joinKeys keys = [] ∨ formatCommand (mgetFormat keys) [] = .formatError

/-- The keys that are sent are the words of the format, and no other key is asked for. -/
structure Clean (keys : List (List UInt8)) : Prop where
  words : AreWords ((sentKeys keys).map cut)
  covered : ∀ key ∈ keys, key ∈ sentKeys keys

/-- The values at the keys have no NUL. -/
def NulFreeAt (content : Content) (keys : List (List UInt8)) : Prop :=
  ∀ key ∈ keys, ∀ str, content (cut key) = some str → (0 : UInt8) ∉ str

/-! ## What is sent -/

theorem getReply_eq (content : Content) (key : List UInt8) :
    getReply content key = .reply (match content (cut key) with
      | some str => .string str
      | none => .nil) := by
  have hformat : formatCommand getFormat [cut key] = .command [getName, cut key] := by
    simp [formatCommand, getFormat]
    rfl
  rw [getReply, redisCommand, hformat]
  rfl

theorem getReply_eq_string_iff {content : Content} {key str : List UInt8} :
    getReply content key = .reply (.string str) ↔ content (cut key) = some str := by
  rw [getReply_eq]
  cases content (cut key) <;> simp

theorem joinFrom_eq (strKey : List UInt8) (keys : List (List UInt8)) :
    joinFrom strKey keys = [space].intercalate (strKey :: keys) := by
  induction keys generalizing strKey with
  | nil => rw [joinFrom, List.intercalate_singleton]
  | cons key keys ih =>
      rw [joinFrom, ih, List.intercalate_cons_cons]
      cases keys with
      | nil => simp
      | cons next keys => simp [List.intercalate_cons_cons]

theorem joinKeys_eq {keys : List (List UInt8)} (hne : keys ≠ []) :
    joinKeys keys = [space].intercalate keys := by
  cases keys with
  | nil => exact absurd rfl hne
  | cons key keys => exact joinFrom_eq key keys

theorem cut_eq_self_iff {text : List UInt8} : cut text = text ↔ (0 : UInt8) ∉ text :=
  CString.bytes_cStr_eq_iff

theorem cut_append {text : List UInt8} (h : (0 : UInt8) ∉ text) (rest : List UInt8) :
    cut (text ++ rest) = text ++ cut rest :=
  CString.bytes_cStr_append_left h rest

theorem cut_append_of_mem {text : List UInt8} (h : (0 : UInt8) ∈ text) (rest : List UInt8) :
    cut (text ++ rest) = cut text := by
  obtain ⟨before, after, rfl, hbefore⟩ := List.eq_append_cons_of_mem h
  have hall : ∀ tail, cut (before ++ 0 :: tail) = before :=
    CString.bytes_cStr_append hbefore
  rw [List.append_assoc, List.cons_append, hall, hall]

theorem sentKeys_ne_nil {keys : List (List UInt8)} (hne : keys ≠ []) : sentKeys keys ≠ [] := by
  cases keys with
  | nil => exact absurd rfl hne
  | cons key keys =>
      rw [sentKeys]
      split <;> simp

theorem sentKeys_initial (keys : List (List UInt8)) : sentKeys keys <+: keys := by
  induction keys with
  | nil => exact List.prefix_refl []
  | cons key keys ih =>
      rw [sentKeys]
      split
      · exact ⟨keys, rfl⟩
      · exact (List.prefix_cons_inj key).mpr ih

theorem cut_intercalate (keys : List (List UInt8)) :
    cut ([space].intercalate keys) = [space].intercalate ((sentKeys keys).map cut) := by
  induction keys with
  | nil => rfl
  | cons key keys ih =>
      rw [sentKeys]
      split
      · rename_i hnul
        cases keys with
        | nil => simp
        | cons next keys =>
            rw [List.intercalate_cons_cons, List.append_assoc, cut_append_of_mem hnul]
            simp
      · rename_i hnul
        cases keys with
        | nil => simp [sentKeys]
        | cons next keys =>
            obtain ⟨first, sent, hsent⟩ := List.exists_cons_of_ne_nil
              (sentKeys_ne_nil (List.cons_ne_nil next keys))
            rw [List.intercalate_cons_cons, List.append_assoc, cut_append hnul,
              cut_append (by decide), ih, hsent, List.map_cons, List.map_cons, List.map_cons,
              List.intercalate_cons_cons, cut_eq_self_iff.mpr hnul, List.append_assoc]

theorem bytes_mgetFormat {keys : List (List UInt8)} (hne : keys ≠ []) :
    (mgetFormat keys).bytes =
      mgetName ++ space :: [space].intercalate ((sentKeys keys).map cut) := by
  show cut (mgetName ++ space :: joinKeys keys) = _
  rw [joinKeys_eq hne, ← List.singleton_append, ← List.append_assoc, cut_append (by decide),
    cut_intercalate, List.append_assoc]
  rfl

/-- Behind the name of the command, the keys are read. -/
theorem formatCommand_mgetFormat {keys : List (List UInt8)} (hne : keys ≠ []) :
    formatCommand (mgetFormat keys) [] =
      formatFrom (between [mgetName]) ([space].intercalate ((sentKeys keys).map cut)) := by
  show formatFrom (between []) (mgetFormat keys).bytes = _
  rw [bytes_mgetFormat hne, formatFrom_word (by decide) (by decide) (by decide),
    formatFrom_space]
  rfl

/-! ## What is stored -/

/-- A value in the map comes from the reply at a position of its key. -/
theorem getElem?_storeReplies {keys : List (List UInt8)} {elements : List (Option (List UInt8))}
    {retValue after : ValueMap} (h : storeReplies keys elements retValue = some after)
    {key value : List UInt8} (hkey : after[key]? = some value) :
    retValue[key]? = some value ∨
      ∃ (i : Nat) (str : List UInt8), keys[i]? = some key ∧ elements[i]? = some (some str) := by
  induction keys, elements, retValue using storeReplies.induct with
  | case1 keys retValue =>
      rw [storeReplies] at h
      exact Or.inl (Option.some.inj h ▸ hkey)
  | case2 elements retValue ih =>
      rw [storeReplies] at h
      obtain hold | ⟨i, str, hi, _⟩ := ih h
      · exact Or.inl hold
      · simp at hi
  | case3 => simp [storeReplies] at h
  | case4 first keys elements retValue ih =>
      rw [storeReplies] at h
      obtain hold | ⟨i, str, hi, hstr⟩ := ih h
      · exact Or.inl hold
      · exact Or.inr ⟨i + 1, str, hi, hstr⟩
  | case5 first keys str elements retValue ih =>
      rw [storeReplies] at h
      obtain hold | ⟨i, str, hi, hstr⟩ := ih h
      · rw [Std.TreeMap.getElem?_insert] at hold
        split at hold
        · rename_i hcompare
          obtain rfl := Std.LawfulEqCmp.eq_of_compare hcompare
          exact Or.inr ⟨0, str, rfl, rfl⟩
        · exact Or.inl hold
      · exact Or.inr ⟨i + 1, str, hi, hstr⟩

/-- Where all strings are one value, a key keeps it. -/
theorem getElem?_storeReplies_const {keys : List (List UInt8)}
    {elements : List (Option (List UInt8))} {retValue after : ValueMap} {value : List UInt8}
    (hvalue : ∀ str, some str ∈ elements → cut str = value)
    (h : storeReplies keys elements retValue = some after) :
    (∀ key : List UInt8, retValue[key]? = some value → after[key]? = some value) ∧
      ∀ (i : Nat) (str : List UInt8), elements[i]? = some (some str) →
        ∃ key, keys[i]? = some key ∧ after[key]? = some value := by
  induction keys, elements, retValue using storeReplies.induct with
  | case1 keys retValue =>
      rw [storeReplies] at h
      obtain rfl := Option.some.inj h
      exact ⟨fun _ => id, by simp⟩
  | case2 elements retValue ih =>
      rw [storeReplies] at h
      obtain ⟨hold, hnew⟩ := ih (fun str hstr => hvalue str (List.mem_cons_of_mem _ hstr)) h
      refine ⟨hold, fun i str hi => ?_⟩
      cases i with
      | zero => cases hi
      | succ i =>
          obtain ⟨key, hkey, _⟩ := hnew i str hi
          simp at hkey
  | case3 => simp [storeReplies] at h
  | case4 first keys elements retValue ih =>
      rw [storeReplies] at h
      obtain ⟨hold, hnew⟩ := ih (fun str hstr => hvalue str (List.mem_cons_of_mem _ hstr)) h
      refine ⟨hold, fun i str hi => ?_⟩
      cases i with
      | zero => cases hi
      | succ i => exact hnew i str hi
  | case5 first keys str elements retValue ih =>
      rw [storeReplies] at h
      obtain ⟨hold, hnew⟩ := ih (fun str hstr => hvalue str (List.mem_cons_of_mem _ hstr)) h
      have hstr : cut str = value := hvalue str List.mem_cons_self
      refine ⟨fun key hkey => hold key ?_, fun i str' hi => ?_⟩
      · rw [Std.TreeMap.getElem?_insert]
        split
        · rw [hstr]
        · exact hkey
      · cases i with
        | zero =>
            refine ⟨first, rfl, hold first ?_⟩
            rw [Std.TreeMap.getElem?_insert, if_pos Std.ReflCmp.compare_self, hstr]
        | succ i => exact hnew i str' hi

/-- Replies that are paired with the keys they were asked for. -/
theorem storeReplies_sent (content : Content) {sent keys : List (List UInt8)}
    (hsent : sent <+: keys) (retValue : ValueMap) :
    ∃ after, storeReplies keys (sent.map fun key => content (cut key)) retValue = some after ∧
      ∀ key : List UInt8, after[key]? =
        if key ∈ sent ∧ (content (cut key)).isSome then (content (cut key)).map cut
        else retValue[key]? := by
  induction sent generalizing keys retValue with
  | nil =>
      refine ⟨retValue, ?_, by simp⟩
      cases keys <;> rfl
  | cons first sent ih =>
      obtain ⟨rest, rfl⟩ := hsent
      rw [List.cons_append, List.map_cons]
      have hinitial : sent <+: sent ++ rest := List.prefix_append _ _
      cases hfirst : content (cut first) with
      | none =>
          obtain ⟨after, hafter, hget⟩ := ih hinitial retValue
          refine ⟨after, hafter, fun key => ?_⟩
          rw [hget]
          by_cases hkey : key = first
          · subst hkey
            simp [hfirst]
          · simp [hkey]
      | some str =>
          obtain ⟨after, hafter, hget⟩ := ih hinitial (retValue.insert first (cut str))
          refine ⟨after, hafter, fun key => ?_⟩
          rw [hget, Std.TreeMap.getElem?_insert]
          by_cases hkey : key = first
          · subst hkey
            simp [hfirst]
          · have hcompare : compare first key ≠ .eq := fun h =>
              hkey (Std.LawfulEqCmp.eq_of_compare h).symm
            simp [hkey, hcompare]

/-! ## Keys that are sent as they are -/

theorem agrees_of_refused {keys : List (List UInt8)} (h : Refused keys) (content : Content) :
    Agrees content keys := by
  refine ⟨false, ∅, ?_, nofun⟩
  rw [mget]
  split
  · rfl
  · rename_i hjoin
    rw [redisCommand, h.resolve_left hjoin]

theorem ne_nil_of_joinKeys {keys : List (List UInt8)} (hjoin : joinKeys keys ≠ []) :
    keys ≠ [] := by
  rintro rfl
  exact hjoin rfl

section Sent

variable {keys : List (List UInt8)} (hjoin : joinKeys keys ≠ [])
include hjoin

theorem mget_eq {more : List (List UInt8)}
    (hformat : formatCommand (mgetFormat keys) [] = .command (mgetName :: more))
    (content : Content) : mget content keys ∅ =
      if more = [] then some (true, ∅)
      else (storeReplies keys (more.map content) ∅).map fun retValue => (true, retValue) := by
  rw [mget, if_neg hjoin, redisCommand, hformat]
  by_cases hmore : more = []
  · subst hmore
    rfl
  · simp [serve, hmore]

theorem agrees_iff_of_clean (hclean : Clean keys) (content : Content) :
    Agrees content keys ↔ NulFreeAt content keys := by
  have hne := ne_nil_of_joinKeys hjoin
  have hsent : (sentKeys keys).map cut ≠ [] := by
    simpa using sentKeys_ne_nil hne
  have hformat : formatCommand (mgetFormat keys) [] =
      .command (mgetName :: (sentKeys keys).map cut) :=
    (formatCommand_mgetFormat hne).trans (formatFrom_words hsent hclean.words [mgetName])
  obtain ⟨after, hafter, hget⟩ := storeReplies_sent content (sentKeys_initial keys) ∅
  have hmget : mget content keys ∅ = some (true, after) := by
    rw [mget_eq hjoin hformat, if_neg hsent, List.map_map]
    show (storeReplies keys ((sentKeys keys).map fun key => content (cut key)) ∅).map _ = _
    rw [hafter]
    rfl
  have hmem : ∀ key, key ∈ sentKeys keys ↔ key ∈ keys := fun key =>
    ⟨fun h => (sentKeys_initial keys).subset h, hclean.covered key⟩
  constructor
  · rintro ⟨ret, retValue, hret, hagree⟩ key hkey str hstr
    obtain ⟨rfl, rfl⟩ := Prod.mk.inj (Option.some.inj (hmget.symm.trans hret))
    have hvalue := (hagree rfl key str).mpr ⟨hkey, getReply_eq_string_iff.mpr hstr⟩
    rw [hget, if_pos ⟨(hmem key).mpr hkey, by rw [hstr]; rfl⟩, hstr] at hvalue
    exact cut_eq_self_iff.mp (Option.some.inj hvalue)
  · intro hnul
    refine ⟨true, after, hmget, fun _ key str => ?_⟩
    rw [hget, getReply_eq_string_iff]
    by_cases hkey : key ∈ keys
    · have hsentKey := (hmem key).mpr hkey
      cases hstr : content (cut key) with
      | none => simp
      | some other => simp [hkey, hsentKey, cut_eq_self_iff.mpr (hnul key hkey other hstr)]
    · have hsentKey : key ∉ sentKeys keys := fun h => hkey ((hmem key).mp h)
      simp [hkey, hsentKey]

end Sent

/-! ## Keys that are not -/

/-- A database with one string. -/
def single (key : List UInt8) : Content := fun other => if other = key then some [118] else none

theorem single_eq_some_iff {key other str : List UInt8} :
    single key other = some str ↔ other = key ∧ str = [118] := by
  rw [single]
  split
  · rename_i h
    simp [h, eq_comm]
  · rename_i h
    simp [h]

section Distinguished

variable {keys more : List (List UInt8)} (hjoin : joinKeys keys ≠ [])
  (hformat : formatCommand (mgetFormat keys) [] = .command (mgetName :: more))
include hjoin hformat

/-- Every key is asked for at its own position. -/
theorem exists_position {key : List UInt8} (hkey : key ∈ keys)
    (h : Agrees (single (cut key)) keys) :
    ∃ i : Nat, keys[i]? = some key ∧ more[i]? = some (cut key) := by
  obtain ⟨ret, retValue, hret, hagree⟩ := h
  have hreply : getReply (single (cut key)) key = .reply (.string [118]) :=
    getReply_eq_string_iff.mpr (single_eq_some_iff.mpr ⟨rfl, rfl⟩)
  rw [mget_eq hjoin hformat] at hret
  split at hret
  · obtain ⟨rfl, rfl⟩ := Prod.mk.inj (Option.some.inj hret)
    have := (hagree rfl key [118]).mpr ⟨hkey, hreply⟩
    simp at this
  · obtain ⟨after, hafter, heq⟩ := Option.map_eq_some_iff.mp hret
    obtain ⟨rfl, rfl⟩ := Prod.mk.inj heq
    have hvalue := (hagree rfl key [118]).mpr ⟨hkey, hreply⟩
    obtain hold | ⟨i, str, hi, hstr⟩ := getElem?_storeReplies hafter hvalue
    · simp at hold
    · rw [List.getElem?_map, Option.map_eq_some_iff] at hstr
      obtain ⟨arg, harg, hsingle⟩ := hstr
      exact ⟨i, hi, by rw [harg, (single_eq_some_iff.mp hsingle).1]⟩

/-- Every argument stands at the position of its key. -/
theorem exists_key {i : Nat} {arg : List UInt8} (hi : more[i]? = some arg)
    (h : Agrees (single arg) keys) : ∃ key, keys[i]? = some key ∧ cut key = arg := by
  obtain ⟨ret, retValue, hret, hagree⟩ := h
  have hmore : more ≠ [] := by
    rintro rfl
    simp at hi
  rw [mget_eq hjoin hformat, if_neg hmore] at hret
  obtain ⟨after, hafter, heq⟩ := Option.map_eq_some_iff.mp hret
  obtain ⟨rfl, rfl⟩ := Prod.mk.inj heq
  have hvalue : ∀ str, some str ∈ more.map (single arg) → cut str = [118] := by
    intro str hstr
    obtain ⟨other, _, hother⟩ := List.mem_map.mp hstr
    rw [(single_eq_some_iff.mp hother).2]
    decide
  have helement : (more.map (single arg))[i]? = some (some [118]) := by
    rw [List.getElem?_map, hi, Option.map_some, single_eq_some_iff.mpr ⟨rfl, rfl⟩]
  obtain ⟨key, hkey, hget⟩ := (getElem?_storeReplies_const hvalue hafter).2 i [118] helement
  have hreply := ((hagree rfl key [118]).mp hget).2
  exact ⟨key, hkey, (single_eq_some_iff.mp (getReply_eq_string_iff.mp hreply)).1⟩

end Distinguished

/-- Agreement for every database of NUL-free values takes keys that are sent as they are. -/
theorem clean_of_agrees {keys : List (List UInt8)} (hrefused : ¬ Refused keys)
    (h : ∀ content : Content, (∀ key str, content key = some str → (0 : UInt8) ∉ str) →
      Agrees content keys) : Clean keys := by
  obtain ⟨hjoin, herror⟩ := not_or.mp hrefused
  have hne := ne_nil_of_joinKeys hjoin
  have hsingle : ∀ key, Agrees (single key) keys := fun key => h _ fun other str hstr => by
    rw [(single_eq_some_iff.mp hstr).2]
    decide
  cases hformat : formatCommand (mgetFormat keys) [] with
  | formatError => exact absurd hformat herror
  | undefined =>
      obtain ⟨ret, retValue, hret, _⟩ := hsingle []
      rw [mget, if_neg hjoin, redisCommand, hformat] at hret
      cases hret
  | command argv =>
      have hfrom := (formatCommand_mgetFormat hne).symm.trans hformat
      have hsound : (between [mgetName]).Sound :=
        ⟨rfl, by simp [Separated, between]; decide, by simp [between], nofun⟩
      obtain ⟨⟨more, rfl⟩, hseparated⟩ := separated_of_formatFrom hsound hfrom
      -- a database that holds one key shows at which place the key was sent
      have hposition : ∀ key ∈ keys, ∃ i : Nat, keys[i]? = some key ∧
          more[i]? = some (cut key) := fun key hkey =>
        exists_position hjoin hformat hkey (hsingle (cut key))
      have hwords : Separated ((sentKeys keys).map cut) := by
        intro word hword
        obtain ⟨key, hkey, rfl⟩ := List.mem_map.mp hword
        obtain ⟨i, _, hi⟩ := hposition key ((sentKeys_initial keys).subset hkey)
        exact hseparated _ (List.mem_append_right _ (List.mem_of_getElem? hi))
      obtain ⟨args, hargs, hlength, hclean⟩ := areWords_of_formatFrom hwords hfrom
      obtain rfl : more = args := List.append_cancel_left hargs
      rw [List.length_map] at hlength
      have hsent : ∀ i, i < (sentKeys keys).length → (sentKeys keys)[i]? = keys[i]? := by
        intro i hi
        obtain ⟨rest, hrest⟩ := sentKeys_initial keys
        conv_rhs => rw [← hrest, List.getElem?_append_left hi]
      refine ⟨hclean ?_, fun key hkey => ?_⟩
      -- there are as many arguments as keys in the format, so none of them was split
      · apply List.ext_getElem?
        intro i
        rw [List.getElem?_map]
        by_cases hi : i < (sentKeys keys).length
        · have hget := List.getElem?_eq_getElem (l := more) (hlength ▸ hi)
          obtain ⟨key, hkey, hcut⟩ := exists_key hjoin hformat hget (hsingle _)
          rw [hsent i hi, hkey, hget, Option.map_some, hcut]
        · rw [List.getElem?_eq_none (by omega), List.getElem?_eq_none (by omega)]
          rfl
      · obtain ⟨i, hi, harg⟩ := hposition key hkey
        have hlt := (List.getElem?_eq_some_iff.mp harg).1
        rw [← hsent i (hlength ▸ hlt)] at hi
        exact List.mem_of_getElem? hi

/-- For keys that are words of the format, the batched read agrees with the single ones exactly
for the databases whose values at the keys have no NUL; for other keys there is a database of
NUL-free values for which it does not, unless no command is sent. -/
theorem mget_agrees_iff (keys : List (List UInt8)) :
    (Refused keys ∨ Clean keys → ∀ content, Agrees content keys ↔
      Refused keys ∨ NulFreeAt content keys) ∧
    (¬ (Refused keys ∨ Clean keys) → ∃ content : Content,
      (∀ key str, content key = some str → (0 : UInt8) ∉ str) ∧ ¬ Agrees content keys) := by
  constructor
  · intro h content
    by_cases hrefused : Refused keys
    · exact iff_of_true (agrees_of_refused hrefused content) (Or.inl hrefused)
    · have hjoin := (not_or.mp hrefused).1
      rw [agrees_iff_of_clean hjoin (h.resolve_left hrefused), or_iff_right hrefused]
  · intro h
    obtain ⟨hrefused, hclean⟩ := not_or.mp h
    by_contra hall
    exact hclean (clean_of_agrees hrefused fun content hnul =>
      not_not.mp fun hagrees => hall ⟨content, hnul, hagrees⟩)

/-- The key `a b` is sent as the keys `a` and `b`. -/
theorem not_agrees_space : ¬ Agrees (single [97, space, 98]) [[97, space, 98]] := by
  intro h
  have hformat : formatCommand (mgetFormat [[97, space, 98]]) [] =
      .command (mgetName :: [[97], [98]]) := by decide
  obtain ⟨i, _, hi⟩ := exists_position (by decide) hformat List.mem_cons_self h
  have hmem := List.mem_of_getElem? hi
  exact absurd hmem (by decide)

end MGet
end Redis
end TcMuzi
