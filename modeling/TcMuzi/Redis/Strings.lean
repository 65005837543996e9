import TcMuzi.Redis.Store

/-!
# String keys and their expiry

What `GET` reads of a key, how time removes it, and that the commands on sorted sets and
hashes neither change nor create a string.
-/

namespace TcMuzi
namespace Redis

open Base

def IsZset : Command → Prop
  | .zscore .. => True
  | .zadd .. => True
  | .zrem .. => True
  | .zincrby .. => True
  | .zrevrange .. => True
  | _ => False

def IsHash : Command → Prop
  | .hset .. => True
  | .hget .. => True
  | .hdel .. => True
  | _ => False

/-- The string at a key, with the seconds it has left. -/
def stringAt (ks : Keyspace) (key : CString) : Option (CString × Option Nat) :=
  match ks.lookup key with
  | some ⟨.str s, ttl⟩ => some (s, ttl)
  | _ => none

theorem stringAt_congr {ks ks' : Keyspace} {key : CString} (h : ks'.lookup key = ks.lookup key) :
    stringAt ks' key = stringAt ks key := by
  rw [stringAt, stringAt, h]

@[simp] theorem stringAt_insert_str (ks : Keyspace) (key s : CString) (ttl : Option Nat) :
    stringAt (ks.insert key ⟨.str s, ttl⟩) key = some (s, ttl) := by
  simp [stringAt]

/-- `GET` answers the string of a key and leaves the keys alone. -/
theorem exec_get (ks : Keyspace) (key : CString) :
    ((Command.get key).exec ks).2 = ks ∧
      match stringAt ks key with
      | some (s, _) => ((Command.get key).exec ks).1 = .string s
      | none => ∀ s, ((Command.get key).exec ks).1 ≠ .string s := by
  unfold Command.exec valueAt stringAt
  rcases hentry : ks.lookup key with _ | ⟨value, ttl⟩
  · simp [hentry]
  · cases value <;> simp [hentry, wrongType]

/-! ## Sorted sets and hashes -/

theorem stringAt_eq_none_of_zsetOf {ks : Keyspace} {key : CString} {members : ZSet}
    (h : zsetOf ks key = some members) : stringAt ks key = none := by
  unfold zsetOf valueAt at h
  unfold stringAt
  rcases hentry : ks.lookup key with _ | ⟨value, ttl⟩
  · rfl
  · cases value with
    | str s => simp [hentry] at h
    | zset _ => rfl
    | hash _ => rfl

theorem stringAt_eq_none_of_hashOf {ks : Keyspace} {key : CString} {fields : Hash}
    (h : hashOf ks key = some fields) : stringAt ks key = none := by
  unfold hashOf valueAt at h
  unfold stringAt
  rcases hentry : ks.lookup key with _ | ⟨value, ttl⟩
  · rfl
  · cases value with
    | str s => simp [hentry] at h
    | zset _ => rfl
    | hash _ => rfl

/-- Storing a sorted set where there is one keeps the strings. -/
theorem stringAt_storeZset {ks : Keyspace} {key : CString} {members : ZSet}
    (h : zsetOf ks key = some members) (members' : ZSet) (other : CString) :
    stringAt (storeZset ks key members') other = stringAt ks other := by
  by_cases hother : other = key
  · subst hother
    rw [stringAt_eq_none_of_zsetOf h]
    exact stringAt_eq_none_of_zsetOf (zsetOf_storeZset ks other members')
  · exact stringAt_congr (lookup_storeZset_ne ks members' hother)

theorem stringAt_storeHash {ks : Keyspace} {key : CString} {fields : Hash}
    (h : hashOf ks key = some fields) (fields' : Hash) (other : CString) :
    stringAt (storeHash ks key fields') other = stringAt ks other := by
  by_cases hother : other = key
  · subst hother
    rw [stringAt_eq_none_of_hashOf h]
    exact stringAt_eq_none_of_hashOf (hashOf_storeHash ks other fields')
  · exact stringAt_congr (lookup_storeHash_ne ks fields' hother)

theorem stringAt_exec_of_isZset {c : Command} (hc : IsZset c) (ks : Keyspace) (other : CString) :
    stringAt (c.exec ks).2 other = stringAt ks other := by
  cases c <;> simp only [IsZset] at hc <;> simp only [Command.exec] <;> split
  all_goals first | rfl | exact stringAt_storeZset (by assumption) _ other

theorem stringAt_exec_of_isHash {c : Command} (hc : IsHash c) (ks : Keyspace) (other : CString) :
    stringAt (c.exec ks).2 other = stringAt ks other := by
  cases c <;> simp only [IsHash] at hc <;> simp only [Command.exec] <;> split
  all_goals first | rfl | exact stringAt_storeHash (by assumption) _ other

/-! ## Time -/

/-- A volatile key disappears when its time is up. -/
def Entry.elapse (seconds : Nat) (entry : Entry) : Option Entry :=
  match entry.ttl with
  | none => some entry
  | some left => if left ≤ seconds then none else some { entry with ttl := some (left - seconds) }

def elapseEntries (seconds : Nat) : List (Sigma fun _ : CString => Entry) →
    List (Sigma fun _ : CString => Entry)
  | [] => []
  | ⟨key, entry⟩ :: rest =>
      match entry.elapse seconds with
      | some entry => ⟨key, entry⟩ :: elapseEntries seconds rest
      | none => elapseEntries seconds rest

theorem keys_elapseEntries_sublist (seconds : Nat) (l : List (Sigma fun _ : CString => Entry)) :
    (elapseEntries seconds l).keys.Sublist l.keys := by
  induction l with
  | nil => exact .slnil
  | cons head rest ih =>
      obtain ⟨key, entry⟩ := head
      unfold elapseEntries
      split
      · exact ih.cons_cons key
      · exact ih.cons key

/-- The keys after some seconds. -/
def elapse (seconds : Nat) (ks : Keyspace) : Keyspace where
  entries := elapseEntries seconds ks.entries
  nodupKeys := (keys_elapseEntries_sublist seconds ks.entries).nodup ks.nodupKeys

theorem dlookup_elapseEntries (seconds : Nat) (key : CString)
    {l : List (Sigma fun _ : CString => Entry)} (hl : l.NodupKeys) :
    (elapseEntries seconds l).dlookup key = (l.dlookup key).bind (Entry.elapse seconds) := by
  induction l with
  | nil => rfl
  | cons head rest ih =>
      obtain ⟨key', entry⟩ := head
      obtain ⟨hfresh, hrest⟩ := List.nodupKeys_cons.mp hl
      have hrest := ih hrest
      unfold elapseEntries
      by_cases hkey : key = key'
      · subst hkey
        have hnone : rest.dlookup key = none := List.dlookup_eq_none.mpr hfresh
        rw [hnone] at hrest
        cases helapse : entry.elapse seconds with
        | none => simpa [helapse] using hrest
        | some entry' => simp [helapse]
      · rw [List.dlookup_cons_ne _ _ hkey]
        split
        · rw [List.dlookup_cons_ne _ _ hkey, hrest]
        · exact hrest

theorem lookup_elapse (seconds : Nat) (ks : Keyspace) (key : CString) :
    (elapse seconds ks).lookup key = (ks.lookup key).bind (Entry.elapse seconds) :=
  dlookup_elapseEntries seconds key ks.nodupKeys

/-- The seconds a string has left after some of them, if any. -/
def elapseString (seconds : Nat) : CString × Option Nat → Option (CString × Option Nat)
  | (s, none) => some (s, none)
  | (s, some left) => if left ≤ seconds then none else some (s, some (left - seconds))

theorem stringAt_elapse (seconds : Nat) (ks : Keyspace) (key : CString) :
    stringAt (elapse seconds ks) key = (stringAt ks key).bind (elapseString seconds) := by
  rw [stringAt, stringAt, lookup_elapse]
  rcases ks.lookup key with _ | ⟨value, ttl⟩
  · rfl
  · cases ttl with
    | none => cases value <;> rfl
    | some left =>
        by_cases hleft : left ≤ seconds
        · cases value <;> simp [Entry.elapse, elapseString, hleft]
        · cases value <;> simp [Entry.elapse, elapseString, hleft]

end Redis
end TcMuzi
