import Mathlib.Data.List.DropRight
import TcMuzi.Base.Util

/-!
# Reading a configuration file

`CConfigFileReader` reads a file with `fgets` into 256 bytes and parses what it finds in that
buffer, so a line of more than 255 bytes is parsed in pieces.
-/

namespace TcMuzi
namespace Config

open Base Lib

def newline : UInt8 := 10
def hash : UInt8 := 35
def equals : UInt8 := 61

/-- `' '` and `'\t'`. -/
def isBlank (b : UInt8) : Bool := b == 32 || b == 9

/-- A byte in front of the line is read or written. -/
inductive Fault
  | beforeStart
deriving DecidableEq

/-- `config_map_`, in the byte order of the keys. -/
abbrev ConfigMap := Std.TreeMap (List UInt8) (List UInt8)

/-! ## `_TrimSpace` -/

/-- `start_pos - name`. -/
def startPos : List UInt8 → Nat
  | [] => 0
  | b :: name => if isBlank b then startPos name + 1 else 0

/-- `end_pos - name`, where the loop goes back from the first of `n` bytes. -/
def endPos (name : List UInt8) : Nat → Except Fault Nat
  -- all bytes are blank, and the loop goes on in front of them
  | 0 => .error .beforeStart
  | n + 1 => if isBlank (name.getD n 0) then endPos name n else .ok n

def trimSpace (name : List UInt8) : Except Fault (Option (List UInt8)) :=
  if name.drop (startPos name) = [] then .ok none
  else do
    let pos ← endPos name name.length
    if pos + 1 ≤ startPos name then .ok none
    else .ok (some ((name.take (pos + 1)).drop (startPos name)))

/-! ## `_ParseLine` and `_LoadFile` -/

/-- The pair that is inserted. -/
def parseLine (line : List UInt8) : Except Fault (Option (List UInt8 × List UInt8)) :=
  if equals ∈ line then do
    let key ← trimSpace (line.takeWhile (· ≠ equals))
    let value ← trimSpace ((line.dropWhile (· ≠ equals)).drop 1)
    match key, value with
    | some key, some value => .ok (some (key, value))
    | _, _ => .ok none
  else .ok none

/-- `fgets(buf, n + 1, fp)` and what is left of the file. -/
def fgets : Nat → List UInt8 → List UInt8 × List UInt8
  | 0, text => ([], text)
  | _ + 1, [] => ([], [])
  | n + 1, b :: text =>
      if b = newline then ([b], text) else (b :: (fgets n text).1, (fgets n text).2)

/-- The buffers that `fgets` fills one after another, until it returns `NULL`. -/
def buffersFrom : Nat → List UInt8 → List (List UInt8)
  | 0, _ => []
  | fuel + 1, text =>
      if text = [] then [] else (fgets 255 text).1 :: buffersFrom fuel (fgets 255 text).2

/-- Every buffer takes at least one byte of the file. -/
def buffers (text : List UInt8) : List (List UInt8) := buffersFrom text.length text

/-- `buf[len - 1] = 0` at the end of a line. -/
def removeNewline (buf : List UInt8) : List UInt8 :=
  if buf.getLast? = some newline then buf.dropLast else buf

/-- One round of the loop; the buffer is read as a C string. -/
def loadBuffer (configMap : ConfigMap) (buf : List UInt8) : Except Fault ConfigMap :=
  let buf := (CString.cStr buf).bytes
  -- `buf[len - 1]` where `len` is 0
  if buf = [] then .error .beforeStart
  else do
    let line := (removeNewline buf).takeWhile (· ≠ hash)
    if line = [] then .ok configMap
    else
      match ← parseLine line with
      | some (key, value) => .ok (configMap.insertIfNew key value)
      | none => .ok configMap

structure ConfigFileReader where
  loadOk : Bool
  configMap : ConfigMap

namespace ConfigFileReader

/-- The constructor leaves `load_ok_` as it is. -/
def new (loadOk : Bool) : ConfigFileReader := ⟨loadOk, ∅⟩

/-- `_LoadFile`; `none` is a file that cannot be opened. -/
def loadFile (reader : ConfigFileReader) :
    Option (List UInt8) → Except Fault (Int × ConfigFileReader)
  | none => .ok (-1, reader)
  | some text => do
      -- the map of an earlier load is kept
      let configMap ← (buffers text).foldlM loadBuffer reader.configMap
      return (0, ⟨true, configMap⟩)

def parseConf (reader : ConfigFileReader) (file : Option (List UInt8)) :
    Except Fault (Int × ConfigFileReader) :=
  reader.loadFile file

def getConfigName (reader : ConfigFileReader) (name : CString) : Option CString :=
  if reader.loadOk then (reader.configMap[name.bytes]?).map CString.cStr else none

end ConfigFileReader

/-! ## The grammar of a file -/

def trim (text : List UInt8) : List UInt8 := (text.dropWhile isBlank).rdropWhile isBlank

/-- What a line binds: it is cut at its first `#` and split at its first `=`. -/
def lineBinding (line : List UInt8) : Option (List UInt8 × List UInt8) :=
  let text := line.takeWhile (· ≠ hash)
  let key := trim (text.takeWhile (· ≠ equals))
  let value := trim ((text.dropWhile (· ≠ equals)).drop 1)
  if equals ∈ text ∧ key ≠ [] ∧ value ≠ [] then some (key, value) else none

def lines (text : List UInt8) : List (List UInt8) := text.splitOn newline

/-- Some line binds the key to the value, and no earlier line binds the key. -/
def Binds (text key value : List UInt8) : Prop :=
  ∃ before line after, lines text = before ++ line :: after ∧
    lineBinding line = some (key, value) ∧
    ∀ earlier ∈ before, ∀ other, lineBinding earlier ≠ some (key, other)

/-- Loading the text gives every key the value that the grammar gives it. -/
def ReadsGrammar (text : CString) : Prop :=
  ∃ reader, (∀ loadOk, (ConfigFileReader.new loadOk).parseConf (some text.bytes) =
      .ok (0, reader)) ∧
    ∀ key value : CString,
      reader.getConfigName key = some value ↔ Binds text.bytes key.bytes value.bytes

/-- The value of a key in a line. -/
def valueOf (key line : List UInt8) : Option (List UInt8) :=
  (lineBinding line).bind fun binding => if binding.1 = key then some binding.2 else none

/-! ## Trimming -/

theorem startPos_eq (name : List UInt8) :
    startPos name = (name.takeWhile isBlank).length := by
  induction name with
  | nil => rfl
  | cons b name ih =>
      rw [startPos, List.takeWhile_cons]
      split
      · rw [List.length_cons, ih]
      · rfl

theorem drop_startPos (name : List UInt8) :
    name.drop (startPos name) = name.dropWhile isBlank := by
  rw [startPos_eq]
  nth_rewrite 2 [← List.takeWhile_append_dropWhile (p := isBlank) (l := name)]
  exact List.drop_left

/-- The loop stops at the last byte that is not blank. -/
theorem endPos_eq (name : List UInt8) {n : Nat} (hn : n ≤ name.length)
    (hne : (name.take n).rdropWhile isBlank ≠ []) :
    endPos name n = .ok (((name.take n).rdropWhile isBlank).length - 1) := by
  induction n with
  | zero => exact absurd rfl hne
  | succ n ih =>
      have hlt : n < name.length := hn
      have htake : name.take (n + 1) = name.take n ++ [name[n]] :=
        (List.take_append_getElem hlt).symm
      have hget : name.getD n 0 = name[n] := by
        rw [List.getD_eq_getElem?_getD, List.getElem?_eq_getElem hlt, Option.getD_some]
      rw [htake] at hne ⊢
      rw [endPos, hget]
      by_cases hblank : isBlank name[n] = true
      · rw [List.rdropWhile_concat_pos _ _ _ hblank] at hne ⊢
        rw [if_pos hblank]
        exact ih (Nat.le_of_succ_le hn) hne
      · rw [List.rdropWhile_concat_neg _ _ _ hblank, if_neg hblank]
        rw [List.length_append, List.length_take, Nat.min_eq_left (Nat.le_of_lt hlt)]
        rfl

theorem rdropWhile_append {xs ys : List UInt8} (h : ys.rdropWhile isBlank ≠ []) :
    (xs ++ ys).rdropWhile isBlank = xs ++ ys.rdropWhile isBlank := by
  have hrev : (ys.reverse.dropWhile isBlank) ≠ [] := fun hnil =>
    h (by rw [List.rdropWhile, hnil, List.reverse_nil])
  rw [List.rdropWhile, List.rdropWhile, List.reverse_append, List.dropWhile_append]
  rw [if_neg (by simpa using hrev), List.reverse_append, List.reverse_reverse]

theorem trim_eq_nil_iff (text : List UInt8) :
    trim text = [] ↔ text.dropWhile isBlank = [] := by
  rw [trim]
  constructor
  · intro h
    cases hdrop : text.dropWhile isBlank with
    | nil => rfl
    | cons b rest =>
        rw [hdrop, List.rdropWhile_eq_nil_iff] at h
        have hb := h b List.mem_cons_self
        have hhead := List.head_dropWhile_not isBlank (l := text) (by rw [hdrop]; simp)
        simp [hdrop, hb] at hhead
  · intro h
    rw [h]
    rfl

/-- Trimming never moves in front of the name. -/
theorem trimSpace_eq (name : List UInt8) :
    trimSpace name = .ok (if trim name = [] then none else some (trim name)) := by
  rw [trimSpace, drop_startPos]
  by_cases hnil : name.dropWhile isBlank = []
  · rw [if_pos hnil, if_pos ((trim_eq_nil_iff name).mpr hnil)]
  · have htrim : trim name ≠ [] := fun h => hnil ((trim_eq_nil_iff name).mp h)
    have hparts : name.rdropWhile isBlank = name.takeWhile isBlank ++ trim name := by
      conv_lhs => rw [← List.takeWhile_append_dropWhile (p := isBlank) (l := name)]
      exact rdropWhile_append htrim
    have hend := endPos_eq name (Nat.le_refl name.length)
      (by rw [List.take_length, hparts]; simp [htrim])
    rw [List.take_length, hparts, List.length_append, ← startPos_eq] at hend
    have hlength : 0 < (trim name).length := List.length_pos_iff.mpr htrim
    have hlast : startPos name + (trim name).length - 1 + 1 =
        startPos name + (trim name).length := by omega
    have htake : name.take (startPos name + (trim name).length) =
        name.takeWhile isBlank ++ trim name := by
      have := List.prefix_iff_eq_take.mp (List.rdropWhile_prefix isBlank name)
      rw [hparts, List.length_append, ← startPos_eq] at this
      exact this.symm
    rw [if_neg hnil, if_neg htrim, hend]
    show (if startPos name + (trim name).length - 1 + 1 ≤ startPos name then Except.ok none
      else _) = _
    rw [hlast, if_neg (by omega), htake, startPos_eq, List.drop_left]

/-! ## One buffer -/

theorem parseLine_eq (line : List UInt8) :
    parseLine (line.takeWhile (· ≠ hash)) = .ok (lineBinding line) := by
  rw [parseLine, lineBinding]
  generalize line.takeWhile (· ≠ hash) = text
  by_cases hequals : equals ∈ text
  · rw [if_pos hequals, trimSpace_eq, trimSpace_eq]
    generalize trim (text.takeWhile (· ≠ equals)) = key
    generalize trim ((text.dropWhile (· ≠ equals)).drop 1) = value
    by_cases hkey : key = []
    · by_cases hvalue : value = [] <;> simp [hkey, hvalue, bind, Except.bind]
    · by_cases hvalue : value = [] <;> simp [hkey, hvalue, hequals, bind, Except.bind]
  · rw [if_neg hequals, if_neg fun h => hequals h.1]

/-- The line that a buffer holds. -/
def lineOf (buf : List UInt8) : List UInt8 := removeNewline (CString.cStr buf).bytes

/-- What a binding does to the map: a key that is there keeps its value. -/
def insertBinding (configMap : ConfigMap) : Option (List UInt8 × List UInt8) → ConfigMap
  | some (key, value) => configMap.insertIfNew key value
  | none => configMap

theorem loadBuffer_eq (configMap : ConfigMap) {buf : List UInt8}
    (hbuf : (CString.cStr buf).bytes ≠ []) :
    loadBuffer configMap buf = .ok (insertBinding configMap (lineBinding (lineOf buf))) := by
  have hline : removeNewline (CString.cStr buf).bytes = lineOf buf := rfl
  simp only [loadBuffer, if_neg hbuf, hline]
  by_cases hnil : (lineOf buf).takeWhile (· ≠ hash) = []
  · have hnone : lineBinding (lineOf buf) = none := by
      rw [lineBinding, hnil, if_neg (by simp)]
    rw [if_pos hnil, hnone]
    rfl
  · rw [if_neg hnil, parseLine_eq]
    cases lineBinding (lineOf buf) <;> rfl

theorem getElem?_insertBinding (configMap : ConfigMap) (key line : List UInt8) :
    (insertBinding configMap (lineBinding line))[key]? =
      (configMap[key]?).or (valueOf key line) := by
  rw [valueOf]
  cases lineBinding line with
  | none => simp [insertBinding]
  | some binding =>
      obtain ⟨bound, value⟩ := binding
      rw [insertBinding, Std.TreeMap.getElem?_insertIfNew, Option.bind_some]
      by_cases hkey : bound = key
      · subst hkey
        by_cases hmem : bound ∈ configMap
        · simp [hmem]
        · simp [hmem]
      · have hcompare : compare bound key ≠ .eq := fun h =>
          hkey (Std.LawfulEqCmp.eq_of_compare h)
        simp [hkey, hcompare]

/-- The buffers that start with a NUL are refused. -/
theorem foldlM_loadBuffer {bufs : List (List UInt8)}
    (hbufs : ∀ buf ∈ bufs, (CString.cStr buf).bytes ≠ []) (configMap : ConfigMap) :
    bufs.foldlM loadBuffer configMap =
      .ok (bufs.foldl (fun m buf => insertBinding m (lineBinding (lineOf buf))) configMap) := by
  induction bufs generalizing configMap with
  | nil => rfl
  | cons buf bufs ih =>
      rw [List.foldlM_cons, loadBuffer_eq configMap (hbufs buf List.mem_cons_self)]
      exact ih (fun b hb => hbufs b (List.mem_cons_of_mem _ hb)) _

/-- After the loop, a key has the value of the first buffer that binds it. -/
theorem getElem?_foldl (bufs : List (List UInt8)) (configMap : ConfigMap) (key : List UInt8) :
    (bufs.foldl (fun m buf => insertBinding m (lineBinding (lineOf buf))) configMap)[key]? =
      (configMap[key]?).or ((bufs.map lineOf).findSome? (valueOf key)) := by
  induction bufs generalizing configMap with
  | nil => simp
  | cons buf bufs ih =>
      rw [List.foldl_cons, ih, getElem?_insertBinding, List.map_cons, List.findSome?_cons,
        Option.or_assoc]
      cases valueOf key (lineOf buf) <;> simp

/-! ## `fgets` -/

theorem fgets_append (n : Nat) (text : List UInt8) :
    (fgets n text).1 ++ (fgets n text).2 = text := by
  induction n generalizing text with
  | zero => rfl
  | succ n ih =>
      cases text with
      | nil => rfl
      | cons b text =>
          rw [fgets]
          split
          · rfl
          · show b :: ((fgets n text).1 ++ (fgets n text).2) = _
            rw [ih]

/-- A line that fits is read with its newline. -/
theorem fgets_line {line : List UInt8} (hline : newline ∉ line) {n : Nat} (hn : line.length < n)
    (rest : List UInt8) : fgets n (line ++ newline :: rest) = (line ++ [newline], rest) := by
  induction line generalizing n with
  | nil =>
      obtain ⟨n, rfl⟩ := Nat.exists_eq_succ_of_ne_zero (Nat.ne_of_gt hn)
      rfl
  | cons b line ih =>
      obtain ⟨n, rfl⟩ := Nat.exists_eq_succ_of_ne_zero (Nat.ne_of_gt (Nat.zero_lt_of_lt hn))
      have hb : b ≠ newline := fun h => hline (h ▸ List.mem_cons_self)
      have hrest := ih (fun h => hline (List.mem_cons_of_mem _ h)) (Nat.lt_of_succ_lt_succ hn)
      show fgets (n + 1) (b :: (line ++ newline :: rest)) = _
      rw [fgets, if_neg hb, hrest]
      rfl

/-- Of a longer one, the first bytes are read. -/
theorem fgets_take {line : List UInt8} (hline : newline ∉ line) {n : Nat} (hn : n ≤ line.length)
    (rest : List UInt8) : fgets n (line ++ rest) = (line.take n, line.drop n ++ rest) := by
  induction n generalizing line with
  | zero => rfl
  | succ n ih =>
      cases line with
      | nil => exact absurd hn (Nat.not_succ_le_zero n)
      | cons b line =>
          have hb : b ≠ newline := fun h => hline (h ▸ List.mem_cons_self)
          have hrest := ih (fun h => hline (List.mem_cons_of_mem _ h)) (Nat.le_of_succ_le_succ hn)
          show fgets (n + 1) (b :: (line ++ rest)) = _
          rw [fgets, if_neg hb, hrest]
          rfl

/-- The last line need not have a newline. -/
theorem fgets_last {line : List UInt8} (hline : newline ∉ line) {n : Nat}
    (hn : line.length ≤ n) : fgets n line = (line, []) := by
  induction line generalizing n with
  | nil => cases n <;> rfl
  | cons b line ih =>
      obtain ⟨n, rfl⟩ := Nat.exists_eq_succ_of_ne_zero (Nat.ne_of_gt (Nat.zero_lt_of_lt hn))
      have hb : b ≠ newline := fun h => hline (h ▸ List.mem_cons_self)
      rw [fgets, if_neg hb, ih (fun h => hline (List.mem_cons_of_mem _ h))
        (Nat.le_of_succ_le_succ hn)]

theorem fgets_ne_nil {text : List UInt8} (htext : text ≠ []) {n : Nat} (hn : n ≠ 0) :
    (fgets n text).1 ≠ [] := by
  obtain ⟨n, rfl⟩ := Nat.exists_eq_succ_of_ne_zero hn
  cases text with
  | nil => exact absurd rfl htext
  | cons b text =>
      rw [fgets]
      split <;> simp

/-! ## The buffers of a text -/

theorem length_fgets_lt {text : List UInt8} (htext : text ≠ []) :
    (fgets 255 text).2.length < text.length := by
  have hpos := List.length_pos_iff.mpr (fgets_ne_nil htext (n := 255) (by decide))
  have happend := congrArg List.length (fgets_append 255 text)
  rw [List.length_append] at happend
  omega

theorem buffersFrom_eq {fuel : Nat} {text : List UInt8} (hfuel : text.length ≤ fuel) :
    buffersFrom fuel text = buffers text := by
  suffices h : ∀ n m : Nat, ∀ text : List UInt8, text.length ≤ n → text.length ≤ m →
      buffersFrom n text = buffersFrom m text from h _ _ _ hfuel (Nat.le_refl _)
  intro n
  induction n with
  | zero =>
      intro m text hn _
      obtain rfl := List.length_eq_zero_iff.mp (Nat.le_zero.mp hn)
      cases m <;> rfl
  | succ n ih =>
      intro m text hn hm
      cases m with
      | zero =>
          obtain rfl := List.length_eq_zero_iff.mp (Nat.le_zero.mp hm)
          rfl
      | succ m =>
          rw [buffersFrom, buffersFrom]
          split
          · rfl
          · rename_i htext
            have hlt := length_fgets_lt htext
            rw [ih m _ (by omega) (by omega)]

@[simp] theorem buffers_nil : buffers [] = [] := rfl

theorem buffers_eq {text : List UInt8} (htext : text ≠ []) :
    buffers text = (fgets 255 text).1 :: buffers (fgets 255 text).2 := by
  have hlt := length_fgets_lt htext
  obtain ⟨n, hn⟩ := Nat.exists_eq_succ_of_ne_zero (Nat.ne_of_gt (Nat.zero_lt_of_lt hlt))
  rw [buffers, hn, buffersFrom, if_neg htext, buffersFrom_eq (by omega)]

/-- What holds of the empty text, and of a text if it holds behind its first buffer. -/
theorem buffers_induction {motive : List UInt8 → Prop} (nil : motive [])
    (step : ∀ text, text ≠ [] → motive (fgets 255 text).2 → motive text) (text : List UInt8) :
    motive text := by
  induction hlength : text.length using Nat.strong_induction_on generalizing text with
  | _ n ih =>
      by_cases htext : text = []
      · exact htext ▸ nil
      · exact step text htext (ih _ (hlength ▸ length_fgets_lt htext) _ rfl)

theorem flatten_buffers (text : List UInt8) : (buffers text).flatten = text := by
  induction text using buffers_induction with
  | nil => rfl
  | step text htext ih => rw [buffers_eq htext, List.flatten_cons, ih, fgets_append]

theorem ne_nil_of_mem_buffers {text buf : List UInt8} (h : buf ∈ buffers text) : buf ≠ [] := by
  induction text using buffers_induction with
  | nil => cases h
  | step text htext ih =>
      rw [buffers_eq htext, List.mem_cons] at h
      obtain rfl | h := h
      · exact fgets_ne_nil htext (by decide)
      · exact ih h

theorem subset_of_mem_buffers {text buf : List UInt8} (h : buf ∈ buffers text) :
    buf ⊆ text := by
  intro b hb
  rw [← flatten_buffers text]
  exact List.mem_flatten_of_mem h hb

theorem buffers_line {line : List UInt8} (hline : newline ∉ line) (hlength : line.length < 255)
    (rest : List UInt8) :
    buffers (line ++ newline :: rest) = (line ++ [newline]) :: buffers rest := by
  rw [buffers_eq (by simp), fgets_line hline hlength]

theorem buffers_take {line : List UInt8} (hline : newline ∉ line) (hlength : 255 ≤ line.length)
    (rest : List UInt8) :
    buffers (line ++ rest) = line.take 255 :: buffers (line.drop 255 ++ rest) := by
  have hne : line ++ rest ≠ [] := by
    intro h
    rw [(List.append_eq_nil_iff.mp h).1] at hlength
    exact absurd hlength (by decide)
  rw [buffers_eq hne, fgets_take hline hlength]

theorem buffers_last {line : List UInt8} (hline : newline ∉ line) (hlength : line.length ≤ 255)
    (hne : line ≠ []) : buffers line = [line] := by
  rw [buffers_eq hne, fgets_last hline hlength, buffers_nil]

/-! ## Lines and buffers -/

theorem lineOf_eq_self {line : List UInt8} (hnul : (0 : UInt8) ∉ line) (hline : newline ∉ line) :
    lineOf line = line := by
  rw [lineOf, CString.bytes_cStr hnul, removeNewline, if_neg]
  exact fun h => hline (List.mem_of_getLast? h)

theorem lineOf_newline {line : List UInt8} (hnul : (0 : UInt8) ∉ line) :
    lineOf (line ++ [newline]) = line := by
  have hnul' : (0 : UInt8) ∉ line ++ [newline] := by
    simpa [newline] using hnul
  rw [lineOf, CString.bytes_cStr hnul', removeNewline, if_pos (by simp), List.dropLast_concat]

theorem valueOf_nil (key : List UInt8) : valueOf key [] = none := rfl

/-- A line of the text is read as its own pieces are. -/
theorem findSome?_buffers_line (key : List UInt8) {line : List UInt8} (rest : List UInt8)
    (hline : newline ∉ line) (hnul : (0 : UInt8) ∉ line) :
    ((buffers (line ++ newline :: rest)).map lineOf).findSome? (valueOf key) =
      ((buffers line).findSome? (valueOf key)).or
        (((buffers rest).map lineOf).findSome? (valueOf key)) := by
  -- a line that does not fit is 255 bytes shorter after its first buffer
  induction hlength : line.length using Nat.strong_induction_on generalizing line with
  | _ n ih =>
      by_cases hfits : line.length < 255
      · rw [buffers_line hline hfits, List.map_cons, List.findSome?_cons, lineOf_newline hnul]
        by_cases hne : line = []
        · simp [hne, valueOf_nil]
        · rw [buffers_last hline (Nat.le_of_lt hfits) hne]
          cases hvalue : valueOf key line <;> simp [hvalue]
      · have hlong : 255 ≤ line.length := Nat.le_of_not_lt hfits
        have hdrop := ih (line.drop 255).length (by rw [List.length_drop]; omega)
          (fun h => hline (List.mem_of_mem_drop h)) (fun h => hnul (List.mem_of_mem_drop h)) rfl
        have hself := buffers_take hline hlong []
        rw [List.append_nil, List.append_nil] at hself
        have htake : lineOf (line.take 255) = line.take 255 :=
          lineOf_eq_self (fun h => hnul (List.mem_of_mem_take h))
            (fun h => hline (List.mem_of_mem_take h))
        rw [buffers_take hline hlong, hself, List.map_cons, List.findSome?_cons,
          List.findSome?_cons, htake, hdrop]
        cases valueOf key (line.take 255) <;> simp

theorem lines_append {line : List UInt8} (hline : newline ∉ line) (rest : List UInt8) :
    lines (line ++ newline :: rest) = line :: lines rest :=
  List.splitOn_append_cons_self_of_not_mem hline rest

theorem lines_last {line : List UInt8} (hline : newline ∉ line) : lines line = [line] :=
  List.splitOn_eq_singleton hline

theorem findSome?_buffers (key : List UInt8) {text : List UInt8} (hnul : (0 : UInt8) ∉ text) :
    ((buffers text).map lineOf).findSome? (valueOf key) =
      ((lines text).flatMap buffers).findSome? (valueOf key) := by
  induction hlength : text.length using Nat.strong_induction_on generalizing text with
  | _ n ih =>
      by_cases hmem : newline ∈ text
      · obtain ⟨line, rest, rfl, hline⟩ := List.eq_append_cons_of_mem hmem
        rw [List.mem_append, not_or] at hnul
        have hrest := ih rest.length (by rw [← hlength]; simp; omega)
          (fun h => hnul.2 (List.mem_cons_of_mem _ h)) rfl
        rw [findSome?_buffers_line key rest hline hnul.1, hrest, lines_append hline,
          List.flatMap_cons, List.findSome?_append]
      · have hself : (buffers text).map lineOf = buffers text := by
          conv_rhs => rw [← List.map_id (buffers text)]
          exact List.map_congr_left fun buf hbuf =>
            lineOf_eq_self (fun h => hnul (subset_of_mem_buffers hbuf h))
              (fun h => hmem (subset_of_mem_buffers hbuf h))
        rw [hself, lines_last hmem]
        simp

/-- A line that fits in the buffer is one piece, or none where it is empty. -/
theorem findSome?_lines (key : List UInt8) {ls : List (List UInt8)}
    (hnewline : ∀ line ∈ ls, newline ∉ line) (hshort : ∀ line ∈ ls, line.length ≤ 255) :
    (ls.flatMap buffers).findSome? (valueOf key) = ls.findSome? (valueOf key) := by
  induction ls with
  | nil => rfl
  | cons line ls ih =>
      have hrest := ih (fun l hl => hnewline l (List.mem_cons_of_mem _ hl))
        (fun l hl => hshort l (List.mem_cons_of_mem _ hl))
      rw [List.flatMap_cons, List.findSome?_append, hrest, List.findSome?_cons]
      by_cases hne : line = []
      · subst hne
        simp [valueOf_nil]
      · rw [buffers_last (hnewline line List.mem_cons_self) (hshort line List.mem_cons_self) hne]
        cases hvalue : valueOf key line <;> simp [hvalue]

theorem mem_lines {text line : List UInt8} (h : line ∈ lines text) :
    newline ∉ line ∧ line ⊆ text :=
  ⟨fun hmem => (mem_of_mem_splitOn h hmem).2 rfl, fun _ hb => (mem_of_mem_splitOn h hb).1⟩

/-! ## What a line binds -/

theorem trim_sublist (text : List UInt8) : (trim text).Sublist text :=
  (List.rdropWhile_prefix isBlank _).sublist.trans (List.dropWhile_sublist isBlank)

theorem trim_eq_self_iff (text : List UInt8) :
    trim text = text ↔ text.dropWhile isBlank = text ∧ text.rdropWhile isBlank = text := by
  constructor
  · intro h
    have hsub : (trim text).Sublist (text.dropWhile isBlank) :=
      (List.rdropWhile_prefix isBlank _).sublist
    have hlength := hsub.length_le
    rw [h] at hlength
    have hdrop : text.dropWhile isBlank = text :=
      (List.dropWhile_sublist isBlank).eq_of_length_le hlength
    rw [trim, hdrop] at h
    exact ⟨hdrop, h⟩
  · rintro ⟨hdrop, hrdrop⟩
    rw [trim, hdrop, hrdrop]

/-- The key, a `=` and the value stand in the line in this order. -/
theorem lineBinding_sublist {line key value : List UInt8}
    (h : lineBinding line = some (key, value)) : (key ++ equals :: value).Sublist line := by
  rw [lineBinding] at h
  generalize htext : line.takeWhile (· ≠ hash) = text at h
  have hsub : text.Sublist line := htext ▸ List.takeWhile_sublist _
  split at h
  · rename_i hbinds
    obtain ⟨rfl, rfl⟩ := Prod.mk.inj (Option.some.inj h)
    obtain ⟨before, after, hsplit, hbefore⟩ := List.eq_append_cons_of_mem hbinds.1
    refine List.Sublist.trans ?_ hsub
    rw [hsplit, takeWhile_ne_append hbefore, dropWhile_ne_append hbefore]
    exact (trim_sublist before).append ((trim_sublist after).cons_cons equals)
  · cases h

theorem valueOf_eq_some_iff {key line value : List UInt8} :
    valueOf key line = some value ↔ lineBinding line = some (key, value) := by
  rw [valueOf]
  cases lineBinding line with
  | none => simp
  | some binding =>
      obtain ⟨bound, other⟩ := binding
      simp only [Option.bind_some, Option.ite_none_right_eq_some, Option.some.injEq,
        Prod.mk.injEq]

theorem valueOf_eq_none_iff {key line : List UInt8} :
    valueOf key line = none ↔ ∀ other, lineBinding line ≠ some (key, other) := by
  rw [Option.eq_none_iff_forall_ne_some]
  exact forall_congr' fun other => not_congr valueOf_eq_some_iff

theorem binds_iff (text key value : List UInt8) :
    Binds text key value ↔ (lines text).findSome? (valueOf key) = some value := by
  rw [List.findSome?_eq_some_iff, Binds]
  simp only [valueOf_eq_some_iff, valueOf_eq_none_iff]

/-- A value that is read has no byte that the text does not have. -/
theorem subset_of_findSome? {ls : List (List UInt8)} {text key value : List UInt8}
    (hls : ∀ line ∈ ls, line ⊆ text) (h : ls.findSome? (valueOf key) = some value) :
    value ⊆ text := by
  obtain ⟨line, hline, hvalue⟩ := List.exists_of_findSome?_eq_some h
  have hsub := (lineBinding_sublist (valueOf_eq_some_iff.mp hvalue)).subset
  exact fun b hb => hls line hline (hsub (by simp [hb]))

/-! ## The whole file -/

/-- What `_LoadFile` leaves in the reader. -/
def loaded (text : List UInt8) : ConfigFileReader :=
  ⟨true, (buffers text).foldl (fun m buf => insertBinding m (lineBinding (lineOf buf))) ∅⟩

theorem cStr_ne_nil_of_mem_buffers {text : CString} {buf : List UInt8}
    (h : buf ∈ buffers text.bytes) : (CString.cStr buf).bytes ≠ [] := by
  rw [CString.bytes_cStr fun hnul => text.nulFree (subset_of_mem_buffers h hnul)]
  exact ne_nil_of_mem_buffers h

theorem parseConf_eq (text : CString) (loadOk : Bool) :
    (ConfigFileReader.new loadOk).parseConf (some text.bytes) = .ok (0, loaded text.bytes) := by
  rw [ConfigFileReader.parseConf, ConfigFileReader.loadFile,
    foldlM_loadBuffer (fun buf hbuf => cStr_ne_nil_of_mem_buffers hbuf)]
  rfl

theorem getElem?_loaded (text : CString) (key : List UInt8) :
    (loaded text.bytes).configMap[key]? =
      ((lines text.bytes).flatMap buffers).findSome? (valueOf key) := by
  rw [loaded, getElem?_foldl, ← findSome?_buffers key text.nulFree]
  simp

theorem subset_of_mem_pieces {text buf : List UInt8} (h : buf ∈ (lines text).flatMap buffers) :
    buf ⊆ text := by
  obtain ⟨line, hline, hbuf⟩ := List.mem_flatMap.mp h
  exact fun b hb => (mem_lines hline).2 (subset_of_mem_buffers hbuf hb)

theorem getConfigName_loaded (text key value : CString) :
    (loaded text.bytes).getConfigName key = some value ↔
      ((lines text.bytes).flatMap buffers).findSome? (valueOf key.bytes) = some value.bytes := by
  have hmap : (loaded text.bytes).getConfigName key =
      ((loaded text.bytes).configMap[key.bytes]?).map CString.cStr := rfl
  rw [hmap, getElem?_loaded, Option.map_eq_some_iff]
  constructor
  · rintro ⟨bytes, hbytes, rfl⟩
    have hsub := subset_of_findSome? (fun buf => subset_of_mem_pieces) hbytes
    rw [CString.bytes_cStr fun hnul => text.nulFree (hsub hnul)]
    exact hbytes
  · intro hbytes
    exact ⟨value.bytes, hbytes, CString.cStr_bytes value⟩

/-- The reader follows the grammar exactly where the pieces of the lines bind what the lines
bind. -/
theorem readsGrammar_iff_pieces (text : CString) : ReadsGrammar text ↔ ∀ key : CString,
    ((lines text.bytes).flatMap buffers).findSome? (valueOf key.bytes) =
      (lines text.bytes).findSome? (valueOf key.bytes) := by
  constructor
  · rintro ⟨reader, hparse, hread⟩ key
    obtain rfl : loaded text.bytes = reader :=
      (Prod.mk.inj (Except.ok.inj ((parseConf_eq text true).symm.trans (hparse true)))).2
    have hvalues := fun value => (getConfigName_loaded text key value).symm.trans
      ((hread key value).trans (binds_iff _ _ _))
    -- values are NUL-free, so it is enough to compare them as C strings
    apply Option.ext
    intro bytes
    constructor
    · intro hbytes
      have hsub := subset_of_findSome? (fun buf => subset_of_mem_pieces) hbytes
      exact (hvalues ⟨bytes, fun hnul => text.nulFree (hsub hnul)⟩).mp hbytes
    · intro hbytes
      have hsub := subset_of_findSome? (fun line hline => (mem_lines hline).2) hbytes
      exact (hvalues ⟨bytes, fun hnul => text.nulFree (hsub hnul)⟩).mpr hbytes
  · intro hpieces
    refine ⟨loaded text.bytes, parseConf_eq text, fun key value => ?_⟩
    rw [getConfigName_loaded, binds_iff, hpieces key]

/-- Loading a configuration text follows the grammar exactly when, for every key, the first of
the 255 byte pieces of the lines that binds it and the first line that binds it give the same
value; so it does where no line has more than 255 bytes. -/
theorem readsGrammar_iff (text : CString) :
    (ReadsGrammar text ↔ ∀ key : CString,
      ((lines text.bytes).flatMap buffers).findSome? (valueOf key.bytes) =
        (lines text.bytes).findSome? (valueOf key.bytes)) ∧
    ((∀ line ∈ lines text.bytes, line.length ≤ 255) → ReadsGrammar text) := by
  refine ⟨readsGrammar_iff_pieces text, fun hshort => ?_⟩
  rw [readsGrammar_iff_pieces]
  intro key
  exact findSome?_lines key.bytes (fun line hline => (mem_lines hline).1) hshort

/-- A comment of 255 bytes, and `k=v` behind it on the same line. -/
def longComment : CString := CString.cStr (hash :: List.replicate 254 120 ++ [107, equals, 118])

/-- The end of the comment binds `k`. -/
theorem not_readsGrammar_longComment : ¬ ReadsGrammar longComment := by
  rw [readsGrammar_iff_pieces]
  intro h
  exact absurd (h ⟨[107], by decide⟩) (by decide +kernel)

end Config
end TcMuzi
