import Mathlib.Algebra.GroupWithZero.Nat
import Mathlib.Algebra.Order.BigOperators.Group.List
import Mathlib.Algebra.Order.Group.Nat
import TcMuzi.Config.Reader

/-!
# Writing a configuration file

`SetConfigValue` prints every pair of the map into 128 bytes and writes what fits.  A pair that
loses its newline there is read together with the pair behind it.
-/

namespace TcMuzi
namespace Config

open Base Lib

/-! ## `SetConfigValue` and `_WriteFIle` -/

/-- `szPaire` after `snprintf(szPaire, 128, "%s=%s\n", …)`. -/
def pairText (pair : List UInt8 × List UInt8) : List UInt8 :=
  ((CString.cStr pair.1).bytes ++
    equals :: ((CString.cStr pair.2).bytes ++ [newline])).take 127

/-- What `fopen` and every `fwrite` answer. -/
structure Disk where
  fopen : Bool
  fwrite : Nat → Bool

/-- The loop over the map, with the number of pairs that are written. -/
def writePairs (disk : Disk) : Nat → List (List UInt8 × List UInt8) → Int × List UInt8
  | _, [] => (0, [])
  | written, pair :: pairs =>
      if disk.fwrite written then
        ((writePairs disk (written + 1) pairs).1,
          pairText pair ++ (writePairs disk (written + 1) pairs).2)
      else (-1, [])

/-- The return code and the file, if it was opened.  What was written is in the file: the buffer of
the stream and an `fclose` that fails are not modelled. -/
def writeFile (disk : Disk) (configMap : ConfigMap) : Int × Option (List UInt8) :=
  if disk.fopen then
    ((writePairs disk 0 configMap.toList).1, some (writePairs disk 0 configMap.toList).2)
  else (-1, none)

def ConfigFileReader.setConfigValue (reader : ConfigFileReader) (disk : Disk)
    (name value : CString) : (Int × Option (List UInt8)) × ConfigFileReader :=
  if reader.loadOk then
    -- the map keeps the new value when the file cannot be written
    let configMap := reader.configMap.insert name.bytes value.bytes
    (writeFile disk configMap, ⟨reader.loadOk, configMap⟩)
  else ((-1, none), reader)

/-! ## A setting that is changed -/

/-- No `#`, no newline and no surrounding blanks. -/
structure Plain (text : CString) : Prop where
  hash : hash ∉ text.bytes
  newline : newline ∉ text.bytes
  trimmed : trim text.bytes = text.bytes

/-- A reader that has loaded a file, and the setting that it is to change. -/
structure Change where
  file : List UInt8
  reader : ConfigFileReader
  loads : ∃ loadOk, (ConfigFileReader.new loadOk).parseConf (some file) = .ok (0, reader)
  name : CString
  value : CString
  plainName : Plain name
  plainValue : Plain value
  nameEquals : equals ∉ name.bytes
  valueNe : value.bytes ≠ []

namespace Change

/-- Whenever `SetConfigValue` returns 0, loading the file yields the old map with the name
bound to the value. -/
def Keeps (c : Change) : Prop :=
  ∀ disk file after, c.reader.setConfigValue disk c.name c.value = ((0, some file), after) →
    ∃ reloaded, (∀ loadOk, (ConfigFileReader.new loadOk).parseConf (some file) =
        .ok (0, reloaded)) ∧
      ∀ key, reloaded.configMap[key]? =
        if key = c.name.bytes then some c.value.bytes else c.reader.configMap[key]?

/-- The pairs of the new map, in the order of the file. -/
def pairs (c : Change) : List (List UInt8 × List UInt8) :=
  (c.reader.configMap.insert c.name.bytes c.value.bytes).toList

end Change

/-- Every pair fits with its newline, the last one perhaps without it. -/
def Fits : List (List UInt8 × List UInt8) → Prop
  | [] => True
  | [pair] => pair.1.length + pair.2.length ≤ 126
  | pair :: pairs => pair.1.length + pair.2.length ≤ 125 ∧ Fits pairs

/-! ## Entries of a loaded map -/

/-- A key and a value as a line can bind them. -/
structure Entry (key value : List UInt8) : Prop where
  keyNe : key ≠ []
  valueNe : value ≠ []
  keyTrim : trim key = key
  valueTrim : trim value = value
  keyEquals : equals ∉ key
  line : ∀ b ∈ key ++ equals :: value, b ≠ hash ∧ b ≠ newline ∧ b ≠ 0

theorem trim_trim (text : List UInt8) : trim (trim text) = trim text := by
  rw [trim_eq_self_iff]
  refine ⟨?_, List.rdropWhile_idempotent isBlank _⟩
  have hinitial : trim text <+: text.dropWhile isBlank := List.rdropWhile_prefix isBlank _
  cases htrim : trim text with
  | nil => rfl
  | cons b rest =>
      rw [htrim] at hinitial
      obtain ⟨after, hafter⟩ := hinitial
      have hb := List.head_dropWhile_not isBlank (l := text) (by rw [← hafter]; simp)
      rw [List.dropWhile_cons_of_neg]
      simpa [← hafter] using hb

theorem lineBinding_takeWhile (line : List UInt8) :
    lineBinding (line.takeWhile (· ≠ hash)) = lineBinding line := by
  rw [lineBinding, lineBinding, List.takeWhile_idem]

theorem entry_of_lineBinding {line key value : List UInt8} (hnewline : newline ∉ line)
    (hnul : (0 : UInt8) ∉ line) (h : lineBinding line = some (key, value)) :
    Entry key value := by
  have hsub := lineBinding_sublist ((lineBinding_takeWhile line).trans h)
  rw [lineBinding] at h
  split at h
  · rename_i hbinds
    obtain ⟨rfl, rfl⟩ := Prod.mk.inj (Option.some.inj h)
    refine ⟨hbinds.2.1, hbinds.2.2, trim_trim _, trim_trim _, ?_, ?_⟩
    · intro hmem
      simpa using List.mem_takeWhile_imp ((trim_sublist _).subset hmem)
    · intro b hb
      have htext := hsub.subset hb
      have hline := (List.takeWhile_sublist _).subset htext
      refine ⟨by simpa using List.mem_takeWhile_imp htext, ?_, ?_⟩
      · rintro rfl
        exact hnewline hline
      · rintro rfl
        exact hnul hline
  · cases h

/-- A newline is the last byte of a buffer. -/
theorem fgets_newline {n : Nat} {text before after : List UInt8}
    (h : (fgets n text).1 = before ++ newline :: after) : after = [] := by
  induction n generalizing text before with
  | zero => simp [fgets] at h
  | succ n ih =>
      cases text with
      | nil => simp [fgets] at h
      | cons b text =>
          rw [fgets] at h
          cases before with
          | nil =>
              split at h
              · exact (List.cons.inj h).2.symm
              · rename_i hb
                exact absurd (List.cons.inj h).1 hb
          | cons c before =>
              split at h
              · exact absurd (List.cons.inj h).2.symm (by simp)
              · exact ih (List.cons.inj h).2

theorem buffers_newline {text buf before after : List UInt8} (hbuf : buf ∈ buffers text)
    (h : buf = before ++ newline :: after) : after = [] := by
  induction text using buffers_induction with
  | nil => cases hbuf
  | step text htext ih =>
      rw [buffers_eq htext, List.mem_cons] at hbuf
      obtain rfl | hbuf := hbuf
      · exact fgets_newline h
      · exact ih hbuf

theorem newline_notMem_lineOf {text buf : List UInt8} (hbuf : buf ∈ buffers text) :
    newline ∉ lineOf buf := by
  have hsplit : (CString.cStr buf).bytes ++ buf.dropWhile (· ≠ 0) = buf :=
    List.takeWhile_append_dropWhile
  rw [lineOf, removeNewline]
  by_cases hmem : newline ∈ (CString.cStr buf).bytes
  · obtain ⟨before, after, hparts, hbefore⟩ := List.eq_append_cons_of_mem hmem
    rw [hparts, List.append_assoc] at hsplit
    obtain ⟨rfl, _⟩ := List.append_eq_nil_iff.mp (buffers_newline hbuf hsplit.symm)
    rw [hparts, if_pos (by simp), List.dropLast_concat]
    exact hbefore
  · split
    · exact fun h => hmem (List.dropLast_subset _ h)
    · exact hmem

theorem nul_notMem_lineOf (buf : List UInt8) : (0 : UInt8) ∉ lineOf buf := by
  rw [lineOf, removeNewline]
  split
  · exact fun h => (CString.cStr buf).nulFree (List.dropLast_subset _ h)
  · exact (CString.cStr buf).nulFree

/-! ## A loaded reader -/

/-- The value that the buffers of a file give a key. -/
def readBack (text key : List UInt8) : Option (List UInt8) :=
  ((buffers text).map lineOf).findSome? (valueOf key)

theorem entry_of_readBack {text key value : List UInt8} (h : readBack text key = some value) :
    Entry key value := by
  obtain ⟨line, hline, hvalue⟩ := List.exists_of_findSome?_eq_some h
  obtain ⟨buf, hbuf, rfl⟩ := List.mem_map.mp hline
  exact entry_of_lineBinding (newline_notMem_lineOf hbuf) (nul_notMem_lineOf buf)
    (valueOf_eq_some_iff.mp hvalue)

theorem foldlM_loadBuffer_ok {bufs : List (List UInt8)} {configMap after : ConfigMap}
    (h : bufs.foldlM loadBuffer configMap = .ok after) :
    after = bufs.foldl (fun m buf => insertBinding m (lineBinding (lineOf buf))) configMap := by
  induction bufs generalizing configMap with
  | nil => exact (Except.ok.inj h).symm
  | cons buf bufs ih =>
      rw [List.foldlM_cons] at h
      by_cases hbuf : (CString.cStr buf).bytes = []
      · have herror : loadBuffer configMap buf = .error .beforeStart := by
          rw [loadBuffer]
          exact if_pos hbuf
        rw [herror] at h
        cases h
      · rw [loadBuffer_eq configMap hbuf] at h
        exact ih h

theorem loads_eq {loadOk : Bool} {file : List UInt8} {reader : ConfigFileReader}
    (h : (ConfigFileReader.new loadOk).parseConf (some file) = .ok (0, reader)) :
    reader.loadOk = true ∧ ∀ key, reader.configMap[key]? = readBack file key := by
  rw [ConfigFileReader.parseConf, ConfigFileReader.loadFile] at h
  cases hfold : (buffers file).foldlM loadBuffer (ConfigFileReader.new loadOk).configMap with
  | error fault => rw [hfold] at h; cases h
  | ok configMap =>
      rw [hfold] at h
      obtain rfl : ⟨true, configMap⟩ = reader := (Prod.mk.inj (Except.ok.inj h)).2
      refine ⟨rfl, fun key => ?_⟩
      rw [foldlM_loadBuffer_ok hfold, getElem?_foldl, readBack]
      simp [ConfigFileReader.new]

/-! ## Reading written pairs -/

/-- The text that is written for the pairs. -/
def written (pairs : List (List UInt8 × List UInt8)) : List UInt8 := pairs.flatMap pairText

section Pair

variable {key value : List UInt8}

theorem pairText_eq (entry : Entry key value) :
    pairText (key, value) = (key ++ equals :: value ++ [newline]).take 127 := by
  have hkey : (0 : UInt8) ∉ key := fun h => (entry.line 0 (by simp [h])).2.2 rfl
  have hvalue : (0 : UInt8) ∉ value := fun h => (entry.line 0 (by simp [h])).2.2 rfl
  rw [pairText, CString.bytes_cStr hkey, CString.bytes_cStr hvalue]
  simp

/-- A pair that fills the buffer loses its newline. -/
theorem pairText_full (entry : Entry key value) (hlength : key.length + value.length = 126) :
    pairText (key, value) = key ++ equals :: value := by
  have hline : (key ++ equals :: value).length = 127 := by
    simp
    omega
  rw [pairText_eq entry, List.take_append_of_le_length (Nat.le_of_eq hline.symm),
    List.take_of_length_le (Nat.le_of_eq hline)]

theorem newline_notMem_line (entry : Entry key value) : newline ∉ key ++ equals :: value :=
  fun h => (entry.line newline h).2.1 rfl

theorem nul_notMem_line (entry : Entry key value) : (0 : UInt8) ∉ key ++ equals :: value :=
  fun h => (entry.line 0 h).2.2 rfl

theorem hash_notMem_key (entry : Entry key value) : hash ∉ key :=
  fun h => (entry.line hash (List.mem_append_left _ h)).1 rfl

theorem hash_notMem_value (entry : Entry key value) : hash ∉ value :=
  fun h => (entry.line hash (List.mem_append_right _ (List.mem_cons_of_mem _ h))).1 rfl

/-- A key that is read from the front of a line. -/
theorem lineBinding_append (entry : Entry key value) (rest : List UInt8) :
    lineBinding (key ++ equals :: rest) =
      if trim (rest.takeWhile (· ≠ hash)) = [] then none
      else some (key, trim (rest.takeWhile (· ≠ hash))) := by
  have htake : (key ++ equals :: rest).takeWhile (· ≠ hash) =
      key ++ equals :: rest.takeWhile (· ≠ hash) := by
    rw [takeWhile_ne_append_left (hash_notMem_key entry), List.takeWhile_cons_of_pos (by decide)]
  rw [lineBinding, htake, takeWhile_ne_append entry.keyEquals,
    dropWhile_ne_append entry.keyEquals, entry.keyTrim]
  simp [entry.keyNe]

theorem lineBinding_self (entry : Entry key value) :
    lineBinding (key ++ equals :: value) = some (key, value) := by
  rw [lineBinding_append entry, takeWhile_ne_self (hash_notMem_value entry), entry.valueTrim,
    if_neg entry.valueNe]

theorem valueOf_line (entry : Entry key value) (name : List UInt8) :
    valueOf name (key ++ equals :: value) = if key = name then some value else none := by
  rw [valueOf, lineBinding_self entry]
  rfl

/-- A pair that keeps its newline is read back, and the rest after it. -/
theorem readBack_whole (entry : Entry key value) (hfits : key.length + value.length ≤ 125)
    (rest name : List UInt8) :
    readBack (pairText (key, value) ++ rest) name =
      (if key = name then some value else none).or (readBack rest name) := by
  have hlength : (key ++ equals :: value).length ≤ 126 := by
    simp
    omega
  rw [pairText_eq entry, List.take_of_length_le (by simp; omega), readBack, List.append_assoc,
    List.singleton_append, buffers_line (newline_notMem_line entry) (by omega), List.map_cons,
    List.findSome?_cons, lineOf_newline (nul_notMem_line entry), valueOf_line entry]
  split <;> simp_all [readBack]

/-- At the end of the file a pair does not need its newline. -/
theorem readBack_last (entry : Entry key value) (hfits : key.length + value.length ≤ 126)
    (name : List UInt8) :
    readBack (pairText (key, value)) name = if key = name then some value else none := by
  by_cases hwhole : key.length + value.length ≤ 125
  · have h := readBack_whole entry hwhole [] name
    rw [List.append_nil] at h
    rw [h]
    simp [readBack]
  · have hlength : (key ++ equals :: value).length = 127 := by
      simp
      omega
    rw [pairText_full entry (by omega), readBack,
      buffers_last (newline_notMem_line entry) (by omega) (by simp), List.map_singleton,
      lineOf_eq_self (nul_notMem_line entry) (newline_notMem_line entry)]
    rw [List.findSome?_cons, valueOf_line entry]
    split <;> simp_all

end Pair

/-- The value of the first pair with the key. -/
def firstValue (pairs : List (List UInt8 × List UInt8)) (name : List UInt8) :
    Option (List UInt8) :=
  pairs.findSome? fun pair => if pair.1 = name then some pair.2 else none

/-- Where every pair fits, the file reads back as the pairs. -/
theorem readBack_written {pairs : List (List UInt8 × List UInt8)}
    (hentries : ∀ pair ∈ pairs, Entry pair.1 pair.2) (hfits : Fits pairs) (name : List UInt8) :
    readBack (written pairs) name = firstValue pairs name := by
  induction pairs with
  | nil => rfl
  | cons pair pairs ih =>
      have hentry := hentries pair List.mem_cons_self
      cases pairs with
      | nil =>
          rw [written, List.flatMap_cons, List.flatMap_nil, List.append_nil,
            readBack_last hentry hfits, firstValue, List.findSome?_cons]
          split <;> simp_all
      | cons next pairs =>
          have hrest := ih (fun p hp => hentries p (List.mem_cons_of_mem _ hp)) hfits.2
          rw [written, List.flatMap_cons, readBack_whole hentry hfits.1, firstValue,
            List.findSome?_cons]
          rw [written, firstValue] at hrest
          rw [hrest]
          split <;> simp_all

/-! ## Pairs that do not fit -/

section Merged

variable {key value : List UInt8}

theorem fgets_append_left {line : List UInt8} (hline : newline ∉ line) {n : Nat}
    (hn : line.length ≤ n) (rest : List UInt8) :
    (fgets n (line ++ rest)).1 = line ++ (fgets (n - line.length) rest).1 := by
  induction line generalizing n with
  | nil => rfl
  | cons b line ih =>
      obtain ⟨n, rfl⟩ := Nat.exists_eq_succ_of_ne_zero (Nat.ne_of_gt (Nat.zero_lt_of_lt hn))
      have hb : b ≠ newline := fun h => hline (h ▸ List.mem_cons_self)
      have hrest := ih (fun h => hline (List.mem_cons_of_mem _ h)) (Nat.le_of_succ_le_succ hn)
      rw [List.cons_append, fgets, if_neg hb]
      show b :: (fgets n (line ++ rest)).1 = _
      rw [hrest, List.length_cons, Nat.succ_sub_succ]
      rfl

theorem lineOf_append {line : List UInt8} (hnewline : newline ∉ line)
    (hnul : (0 : UInt8) ∉ line) (rest : List UInt8) :
    lineOf (line ++ rest) = line ++ lineOf rest := by
  have hbytes : (CString.cStr (line ++ rest)).bytes = line ++ (CString.cStr rest).bytes :=
    CString.bytes_cStr_append_left hnul rest
  rw [lineOf, lineOf, hbytes, removeNewline, removeNewline]
  by_cases hrest : (CString.cStr rest).bytes = []
  · rw [hrest, List.append_nil, if_neg fun h => hnewline (List.mem_of_getLast? h)]
    simp
  · rw [List.getLast?_append_of_ne_nil _ hrest, List.dropLast_append_of_ne_nil hrest]
    split <;> rfl

theorem trim_append {rest : List UInt8} (hvalue : value ≠ []) (htrim : trim value = value)
    (hrest : rest.rdropWhile isBlank ≠ []) :
    trim (value ++ rest) = value ++ rest.rdropWhile isBlank := by
  have hdrop := ((trim_eq_self_iff value).mp htrim).1
  rw [trim, List.dropWhile_append, hdrop, if_neg (by simpa using hvalue),
    rdropWhile_append hrest]

/-- Without its newline, a pair takes the beginning of the next one into its value. -/
theorem readBack_merged (entry : Entry key value)
    (hlength : key.length + value.length = 126) {b : UInt8} (hblank : isBlank b = false)
    (hb : b ≠ hash ∧ b ≠ newline ∧ b ≠ 0) (rest : List UInt8) :
    readBack (key ++ equals :: value ++ b :: rest) key ≠ some value := by
  have hline : (key ++ equals :: value).length = 127 := by
    simp
    omega
  obtain ⟨more, hmore⟩ : ∃ more, (fgets 128 (b :: rest)).1 = b :: more := by
    rw [fgets, if_neg hb.2.1]
    exact ⟨_, rfl⟩
  have hbuf : (fgets 255 (key ++ equals :: value ++ b :: rest)).1 =
      key ++ equals :: value ++ b :: more := by
    rw [fgets_append_left (newline_notMem_line entry) (by omega), hline, hmore]
  have hlineOf : lineOf (key ++ equals :: value ++ b :: more) =
      key ++ equals :: (value ++ b :: lineOf more) := by
    have hone : lineOf ([b] ++ more) = [b] ++ lineOf more :=
      lineOf_append (by simpa using Ne.symm hb.2.1) (by simpa using Ne.symm hb.2.2) more
    rw [lineOf_append (newline_notMem_line entry) (nul_notMem_line entry)]
    rw [List.singleton_append] at hone
    rw [hone]
    simp
  have htake : (value ++ b :: lineOf more).takeWhile (· ≠ hash) =
      value ++ b :: (lineOf more).takeWhile (· ≠ hash) := by
    rw [takeWhile_ne_append_left (hash_notMem_value entry),
      List.takeWhile_cons_of_pos (by simpa using hb.1)]
  have hkept : (b :: (lineOf more).takeWhile (· ≠ hash)).rdropWhile isBlank ≠ [] := by
    rw [Ne, List.rdropWhile_eq_nil_iff]
    intro h
    rw [h b List.mem_cons_self] at hblank
    cases hblank
  have hvalue : valueOf key (key ++ equals :: (value ++ b :: lineOf more)) =
      some (value ++ (b :: (lineOf more).takeWhile (· ≠ hash)).rdropWhile isBlank) := by
    rw [valueOf, lineBinding_append entry, htake,
      trim_append entry.valueNe entry.valueTrim hkept, if_neg (by simp [entry.valueNe])]
    simp
  rw [readBack, buffers_eq (by simp), hbuf, List.map_cons, List.findSome?_cons, hlineOf, hvalue]
  intro h
  have := Option.some.inj h
  exact hkept (by simpa using this)

/-- A key begins with a byte that is not blank. -/
theorem isBlank_of_keyTrim {b : UInt8} {more : List UInt8} (h : trim (b :: more) = b :: more) :
    isBlank b = false := by
  have hdrop := ((trim_eq_self_iff _).mp h).1
  rw [List.dropWhile_cons] at hdrop
  split at hdrop
  · have hlength := congrArg List.length hdrop
    have hle := (List.dropWhile_sublist isBlank (l := more)).length_le
    rw [List.length_cons] at hlength
    omega
  · rename_i hb
    simpa using hb

/-- The text of pairs begins as their first key does. -/
theorem written_cons (entry : Entry key value) (pairs : List (List UInt8 × List UInt8)) :
    ∃ b rest, written ((key, value) :: pairs) = b :: rest ∧ isBlank b = false ∧
      b ≠ hash ∧ b ≠ newline ∧ b ≠ 0 := by
  obtain ⟨b, more, rfl⟩ := List.exists_cons_of_ne_nil entry.keyNe
  rw [written, List.flatMap_cons, pairText_eq entry]
  exact ⟨b, _, rfl, isBlank_of_keyTrim entry.keyTrim, entry.line b (by simp)⟩

end Merged

/-- All pairs leave their newlines, or are followed by nothing. -/
theorem fits_of_readBack {pairs : List (List UInt8 × List UInt8)}
    (hentries : ∀ pair ∈ pairs, Entry pair.1 pair.2)
    (hkeys : pairs.Pairwise fun a b => a.1 ≠ b.1)
    (hshort : ∀ pair ∈ pairs, pair.1.length + pair.2.length ≤ 126)
    (hread : ∀ pair ∈ pairs, readBack (written pairs) pair.1 = some pair.2) : Fits pairs := by
  induction pairs with
  | nil => trivial
  | cons pair pairs ih =>
      obtain ⟨key, value⟩ := pair
      have hentry := hentries _ List.mem_cons_self
      cases pairs with
      | nil => exact hshort _ List.mem_cons_self
      | cons next pairs =>
          obtain ⟨hdistinct, hkeys⟩ := List.pairwise_cons.mp hkeys
          by_cases hwhole : key.length + value.length ≤ 125
          · refine ⟨hwhole, ih (fun p hp => hentries p (List.mem_cons_of_mem _ hp)) hkeys
              (fun p hp => hshort p (List.mem_cons_of_mem _ hp)) fun p hp => ?_⟩
            have h := hread p (List.mem_cons_of_mem _ hp)
            rw [written, List.flatMap_cons, readBack_whole hentry hwhole,
              if_neg (hdistinct p hp), Option.none_or] at h
            exact h
          · -- the next pair begins right behind the value
            have hlength : key.length + value.length = 126 := by
              have := hshort _ List.mem_cons_self
              simp only at this
              omega
            have hnext := hentries next (by simp)
            obtain ⟨b, rest, hrest, hblank, hline⟩ := written_cons hnext pairs
            have h := hread (key, value) List.mem_cons_self
            rw [written, List.flatMap_cons, pairText_full hentry hlength, ← written, hrest] at h
            exact absurd h (readBack_merged hentry hlength hblank hline rest)

/-! ## Counting bytes -/

/-- The bytes of a key, a `=` and a value. -/
def weight (pair : List UInt8 × List UInt8) : Nat := pair.1.length + pair.2.length + 1

/-- The bytes of a text that are no newlines. -/
def content (text : List UInt8) : Nat := (text.filter (· ≠ newline)).length

theorem content_append (text rest : List UInt8) :
    content (text ++ rest) = content text + content rest := by
  rw [content, List.filter_append, List.length_append]
  rfl

theorem content_pairText {pair : List UInt8 × List UInt8} (entry : Entry pair.1 pair.2) :
    content (pairText pair) ≤ min 127 (weight pair) := by
  obtain ⟨key, value⟩ := pair
  have hline : content (key ++ equals :: value ++ [newline]) = weight (key, value) := by
    rw [content_append, content, filter_ne_self (newline_notMem_line entry)]
    simp [content, weight]
    omega
  rw [pairText_eq entry]
  apply le_min
  · exact (List.length_filter_le _ _).trans (List.length_take_le _ _)
  · rw [← hline]
    exact ((List.take_sublist _ _).filter _).length_le

/-- A line binds no more bytes than its buffer has. -/
theorem weight_le_content {buf key value : List UInt8} (hnewline : newline ∉ lineOf buf)
    (h : lineBinding (lineOf buf) = some (key, value)) : weight (key, value) ≤ content buf := by
  have hbuf : (lineOf buf).Sublist buf := by
    have hbytes : (CString.cStr buf).bytes.Sublist buf := List.takeWhile_sublist _
    rw [lineOf, removeNewline]
    split
    · exact (List.dropLast_sublist _).trans hbytes
    · exact hbytes
  have hsub := lineBinding_sublist h
  have hfilter : (key ++ equals :: value).filter (· ≠ newline) = key ++ equals :: value :=
    filter_ne_self fun h => hnewline (hsub.subset h)
  have hlength := ((hsub.trans hbuf).filter (· ≠ newline)).length_le
  rw [hfilter] at hlength
  rw [weight, content]
  simp at hlength ⊢
  omega

/-- The pairs that the buffers of a file bind. -/
def bindings (text : List UInt8) : List (List UInt8 × List UInt8) :=
  (buffers text).filterMap fun buf => lineBinding (lineOf buf)

theorem sum_weight_bindings (text : List UInt8) :
    ((bindings text).map weight).sum ≤ content text := by
  -- the induction is on the buffers, with no text behind them
  suffices h : ∀ bufs : List (List UInt8), (∀ buf ∈ bufs, newline ∉ lineOf buf) →
      ((bufs.filterMap fun buf => lineBinding (lineOf buf)).map weight).sum ≤
        content bufs.flatten by
    have := h (buffers text) fun buf hbuf => newline_notMem_lineOf hbuf
    rwa [flatten_buffers] at this
  intro bufs hbufs
  induction bufs with
  | nil => exact Nat.zero_le _
  | cons buf bufs ih =>
      have hrest := ih fun b hb => hbufs b (List.mem_cons_of_mem _ hb)
      rw [List.flatten_cons, content_append, List.filterMap_cons]
      cases hbinding : lineBinding (lineOf buf) with
      | none => exact hrest.trans (Nat.le_add_left _ _)
      | some pair =>
          obtain ⟨key, value⟩ := pair
          have := weight_le_content (hbufs buf List.mem_cons_self) hbinding
          rw [List.map_cons, List.sum_cons]
          omega

theorem content_written {pairs : List (List UInt8 × List UInt8)}
    (hentries : ∀ pair ∈ pairs, Entry pair.1 pair.2) :
    content (written pairs) ≤ (pairs.map fun pair => min 127 (weight pair)).sum := by
  induction pairs with
  | nil => exact Nat.le_refl _
  | cons pair pairs ih =>
      have hrest := ih fun p hp => hentries p (List.mem_cons_of_mem _ hp)
      have hpair := content_pairText (hentries pair List.mem_cons_self)
      rw [written, List.flatMap_cons, content_append, List.map_cons, List.sum_cons, ← written]
      omega

theorem weight_le_of_sum {pairs : List (List UInt8 × List UInt8)}
    (h : (pairs.map weight).sum ≤ (pairs.map fun pair => min 127 (weight pair)).sum) :
    ∀ pair ∈ pairs, weight pair ≤ 127 := by
  induction pairs with
  | nil => nofun
  | cons pair pairs ih =>
      have hmin : (pairs.map fun pair => min 127 (weight pair)).sum ≤ (pairs.map weight).sum :=
        List.sum_le_sum fun p _ => Nat.min_le_right _ _
      simp only [List.map_cons, List.sum_cons] at h
      rw [List.forall_mem_cons]
      exact ⟨by omega, ih (by omega)⟩

/-- When all pairs are read back, they had room: their bytes have to come from the file. -/
theorem short_of_readBack {pairs : List (List UInt8 × List UInt8)}
    (hentries : ∀ pair ∈ pairs, Entry pair.1 pair.2) (hnodup : pairs.Nodup)
    (hread : ∀ pair ∈ pairs, readBack (written pairs) pair.1 = some pair.2) :
    ∀ pair ∈ pairs, pair.1.length + pair.2.length ≤ 126 := by
  have hsubset : pairs ⊆ bindings (written pairs) := by
    intro pair hpair
    obtain ⟨line, hline, hvalue⟩ := List.exists_of_findSome?_eq_some (hread pair hpair)
    obtain ⟨buf, hbuf, rfl⟩ := List.mem_map.mp hline
    exact List.mem_filterMap.mpr ⟨buf, hbuf, valueOf_eq_some_iff.mp hvalue⟩
  -- so the written bytes are at least the bytes of the pairs, and at most 127 for each pair
  obtain ⟨bound, hperm, hsub⟩ := List.subperm_of_subset hnodup hsubset
  have hsum : (pairs.map weight).sum ≤ (pairs.map fun pair => min 127 (weight pair)).sum :=
    calc (pairs.map weight).sum = (bound.map weight).sum := (hperm.map weight).sum_eq.symm
      _ ≤ ((bindings (written pairs)).map weight).sum :=
        (hsub.map weight).sum_le_sum fun _ _ => Nat.zero_le _
      _ ≤ content (written pairs) := sum_weight_bindings _
      _ ≤ _ := content_written hentries
  intro pair hpair
  have := weight_le_of_sum hsum pair hpair
  rw [weight] at this
  omega

/-! ## The written file -/

theorem writePairs_eq_written {disk : Disk} {n : Nat} {pairs : List (List UInt8 × List UInt8)}
    (h : (writePairs disk n pairs).1 = 0) : (writePairs disk n pairs).2 = written pairs := by
  induction pairs generalizing n with
  | nil => rfl
  | cons pair pairs ih =>
      rw [writePairs] at h ⊢
      split
      · rename_i hwrite
        rw [if_pos hwrite] at h
        -- the return code is that of the pairs behind this one
        show pairText pair ++ _ = pairText pair ++ _
        rw [ih h]
        rfl
      · rename_i hwrite
        rw [if_neg hwrite] at h
        exact absurd h (by decide)

/-- A disk on which everything can be written. -/
def goodDisk : Disk := ⟨true, fun _ => true⟩

theorem writePairs_goodDisk (n : Nat) (pairs : List (List UInt8 × List UInt8)) :
    (writePairs goodDisk n pairs).1 = 0 := by
  induction pairs generalizing n with
  | nil => rfl
  | cons pair pairs ih =>
      have htrue : goodDisk.fwrite n = true := rfl
      rw [writePairs, if_pos htrue]
      exact ih (n + 1)

theorem firstValue_toList (configMap : ConfigMap) (name : List UInt8) :
    firstValue configMap.toList name = configMap[name]? := by
  have hmem : ∀ value, firstValue configMap.toList name = some value →
      configMap[name]? = some value := by
    intro value h
    obtain ⟨pair, hpair, hvalue⟩ := List.exists_of_findSome?_eq_some h
    split at hvalue
    · rename_i hname
      obtain rfl := Option.some.inj hvalue
      subst hname
      exact Std.TreeMap.mem_toList_iff_getElem?_eq_some.mp hpair
    · cases hvalue
  cases hfirst : firstValue configMap.toList name with
  | some value => exact (hmem value hfirst).symm
  | none =>
      rw [firstValue, List.findSome?_eq_none_iff] at hfirst
      cases hget : configMap[name]? with
      | none => rfl
      | some value =>
          have := hfirst (name, value) (Std.TreeMap.mem_toList_iff_getElem?_eq_some.mpr hget)
          simp at this

theorem nul_notMem_written {pairs : List (List UInt8 × List UInt8)}
    (hentries : ∀ pair ∈ pairs, Entry pair.1 pair.2) : (0 : UInt8) ∉ written pairs := by
  rw [written, List.mem_flatMap]
  rintro ⟨pair, hpair, h⟩
  obtain ⟨key, value⟩ := pair
  have hentry := hentries _ hpair
  rw [pairText_eq hentry] at h
  have hmem := List.mem_of_mem_take h
  rw [List.mem_append] at hmem
  obtain hmem | hmem := hmem
  · exact nul_notMem_line hentry hmem
  · exact absurd hmem (by decide)

/-! ## Changing a setting -/

namespace Change

variable (c : Change)

theorem loadOk_reader : c.reader.loadOk = true := by
  obtain ⟨loadOk, hloads⟩ := c.loads
  exact (loads_eq hloads).1

/-- The new map. -/
theorem getElem?_insert_name (key : List UInt8) :
    (c.reader.configMap.insert c.name.bytes c.value.bytes)[key]? =
      if key = c.name.bytes then some c.value.bytes else c.reader.configMap[key]? := by
  rw [Std.TreeMap.getElem?_insert]
  by_cases hkey : key = c.name.bytes
  · rw [if_pos hkey, if_pos (hkey ▸ Std.ReflCmp.compare_self)]
  · rw [if_neg hkey, if_neg fun h => hkey (Std.LawfulEqCmp.eq_of_compare h).symm]

theorem entry_name (hname : c.name.bytes ≠ []) : Entry c.name.bytes c.value.bytes where
  keyNe := hname
  valueNe := c.valueNe
  keyTrim := c.plainName.trimmed
  valueTrim := c.plainValue.trimmed
  keyEquals := c.nameEquals
  line := by
    intro b hb
    rw [List.mem_append, List.mem_cons] at hb
    obtain hb | rfl | hb := hb
    · exact ⟨fun h => c.plainName.hash (h ▸ hb), fun h => c.plainName.newline (h ▸ hb),
        fun h => c.name.nulFree (h ▸ hb)⟩
    · decide
    · exact ⟨fun h => c.plainValue.hash (h ▸ hb), fun h => c.plainValue.newline (h ▸ hb),
        fun h => c.value.nulFree (h ▸ hb)⟩

theorem entry_of_mem_pairs (hname : c.name.bytes ≠ []) :
    ∀ pair ∈ c.pairs, Entry pair.1 pair.2 := by
  rintro ⟨key, value⟩ hpair
  have hget := Std.TreeMap.mem_toList_iff_getElem?_eq_some.mp hpair
  rw [c.getElem?_insert_name] at hget
  split at hget
  · rename_i hkey
    obtain rfl := Option.some.inj hget
    exact hkey ▸ c.entry_name hname
  · obtain ⟨loadOk, hloads⟩ := c.loads
    rw [(loads_eq hloads).2] at hget
    exact entry_of_readBack hget

theorem pairwise_pairs : c.pairs.Pairwise fun a b => a.1 ≠ b.1 := by
  refine Std.TreeMap.distinct_keys_toList.imp ?_
  intro a b hne heq
  exact hne (heq ▸ Std.ReflCmp.compare_self)

theorem setConfigValue_eq (disk : Disk) :
    c.reader.setConfigValue disk c.name c.value =
      (writeFile disk (c.reader.configMap.insert c.name.bytes c.value.bytes),
        ⟨c.reader.loadOk, c.reader.configMap.insert c.name.bytes c.value.bytes⟩) := by
  rw [ConfigFileReader.setConfigValue, if_pos c.loadOk_reader]

/-- A return code 0 means that the pairs are in the file. -/
theorem file_eq_written {disk : Disk} {file : List UInt8} {after : ConfigFileReader}
    (h : c.reader.setConfigValue disk c.name c.value = ((0, some file), after)) :
    file = written c.pairs := by
  rw [setConfigValue_eq, writeFile] at h
  split at h
  · obtain ⟨hret, hfile⟩ := Prod.mk.inj (Prod.mk.inj h).1
    rw [← Option.some.inj hfile]
    exact writePairs_eq_written hret
  · exact absurd (Prod.mk.inj (Prod.mk.inj h).1).1 (by decide)

theorem setConfigValue_goodDisk : ∃ after,
    c.reader.setConfigValue goodDisk c.name c.value = ((0, some (written c.pairs)), after) := by
  have hret := writePairs_goodDisk 0 c.pairs
  have hfile := writePairs_eq_written hret
  have hwrite : writeFile goodDisk (c.reader.configMap.insert c.name.bytes c.value.bytes) =
      ((writePairs goodDisk 0 c.pairs).1, some (writePairs goodDisk 0 c.pairs).2) := rfl
  rw [c.setConfigValue_eq, hwrite, hret, hfile]
  exact ⟨_, rfl⟩

theorem fits_of_keeps (h : c.Keeps) : c.name.bytes ≠ [] ∧ Fits c.pairs := by
  obtain ⟨after, hset⟩ := c.setConfigValue_goodDisk
  obtain ⟨reloaded, hloads, hmap⟩ := h _ _ _ hset
  have hread : ∀ pair ∈ c.pairs, readBack (written c.pairs) pair.1 = some pair.2 := by
    rintro ⟨key, value⟩ hpair
    rw [← (loads_eq (hloads true)).2, hmap, ← c.getElem?_insert_name]
    exact Std.TreeMap.mem_toList_iff_getElem?_eq_some.mp hpair
  have hentries : ∀ pair ∈ c.pairs, Entry pair.1 pair.2 := fun pair hpair =>
    entry_of_readBack (hread pair hpair)
  have hnodup : c.pairs.Nodup := by
    refine c.pairwise_pairs.imp ?_
    intro a b hne heq
    exact hne (congrArg Prod.fst heq)
  have hname : (c.name.bytes, c.value.bytes) ∈ c.pairs := by
    apply Std.TreeMap.mem_toList_iff_getElem?_eq_some.mpr
    rw [c.getElem?_insert_name, if_pos rfl]
  exact ⟨(hentries _ hname).keyNe, fits_of_readBack hentries c.pairwise_pairs
    (short_of_readBack hentries hnodup hread) hread⟩

theorem keeps_of_fits (hname : c.name.bytes ≠ []) (hfits : Fits c.pairs) : c.Keeps := by
  intro disk file after hset
  obtain rfl := c.file_eq_written hset
  have hentries := c.entry_of_mem_pairs hname
  have hloads := parseConf_eq ⟨written c.pairs, nul_notMem_written hentries⟩
  refine ⟨_, hloads, fun key => ?_⟩
  rw [(loads_eq (hloads true)).2, readBack_written hentries hfits, pairs, firstValue_toList,
    c.getElem?_insert_name]

/-- A changed setting and all others survive exactly when the name is not empty and, in the
order of the keys, every pair has at most 125 bytes, or 126 if it is the last one. -/
theorem keeps_iff : c.Keeps ↔ c.name.bytes ≠ [] ∧ Fits c.pairs :=
  ⟨c.fits_of_keeps, fun h => c.keeps_of_fits h.1 h.2⟩

end Change

/-- `b=c`, and `a` is given a value of 125 bytes. -/
def longValue : Change where
  file := [98, equals, 99, newline]
  reader := loaded [98, equals, 99, newline]
  loads := ⟨true, parseConf_eq ⟨[98, equals, 99, newline], by decide⟩ true⟩
  name := ⟨[97], by decide⟩
  value := ⟨List.replicate 125 120, by decide +kernel⟩
  plainName := ⟨by decide, by decide, by decide⟩
  plainValue := ⟨by decide +kernel, by decide +kernel, by decide +kernel⟩
  nameEquals := by decide
  valueNe := by decide

/-- `b` is lost: its pair is read as the end of the value of `a`. -/
theorem not_keeps_longValue : ¬ longValue.Keeps := by
  intro h
  have hpairs : longValue.pairs = [([97], List.replicate 125 120), ([98], [99])] := by
    decide +kernel
  have hfits := (longValue.fits_of_keeps h).2
  rw [hpairs] at hfits
  exact absurd hfits.1 (by simp)

end Config
end TcMuzi
