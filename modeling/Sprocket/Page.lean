/-
  File:      Sprocket/Page.lean
  Subject:   THE PAGE OF THE SERVICE: from the files of the image to what the socket is given.

  `UserService::start` reads `README.md` and logs it if it is text, reads `index.html`, puts the
  version in for its mark, and adds the head of an HTTP answer. For every request it puts the time
  since boot in for a second mark and gives the result to the socket.

  * `fill_page` -- the two replacements, made at different times, are one pass over the file: no
    text that is put in is taken for a mark or completes one;
  * `readTime_timeText` -- the time can be read back from its text;
  * `service_page` -- what `send_slice` is given for a request, from the files the image tool was
    given.

  The socket belongs to another crate, and the model ends at the argument of `send_slice`. The
  socket takes of it what there is room for, at most the 4096 bytes of its buffer; the service does
  not look at the count it returns, so of a longer answer the rest is never sent.
-/
import Sprocket.Lib.Text
import Sprocket.Service

namespace Sprocket.Service

open Bytes Prog SimpleFs File

/-! ## 1. The code -/

/-- `core::str::from_utf8` and `String::from_utf8` -/
def fromUtf8 (bytes : List UInt8) : Option (List Char) :=
  bytes.toByteArray.utf8Decode?.map Array.toList

/-- `as_bytes` -/
def asBytes (text : List Char) : List UInt8 := text.flatMap String.utf8EncodeChar

/-- `README.md` -/
def readmeName : List UInt8 := [82, 69, 65, 68, 77, 69, 46, 109, 100]

/-- `index.html` -/
def indexName : List UInt8 := [105, 110, 100, 101, 120, 46, 104, 116, 109, 108]

def versionMark : List Char := "$\x7b\x7bVERSION\x7d\x7d".toList

def timeMark : List Char := "$\x7b\x7bTIME\x7d\x7d".toList

/-- `CARGO_PKG_VERSION` -/
def version : List Char := "0.2.0".toList

def header : List Char := "HTTP/1.1 200 OK\r\n\r\n".toList

section Code

variable {T : Type}

/-- `unwrap` of the text of a file -/
def unwrapText : Option (List Char) → Prog T Unit (List Char)
  | some text => pure text
  | none => crash

/-- `start` up to its loop: what is logged of `README.md`, and `http`. -/
def loadPage [Disk T] : Prog T Unit (Option (List Char) × List Char) := do
  let readme ← readWhole slash readmeName
  let index ← readWhole slash indexName
  let text ← unwrapText (fromUtf8 index)
  let html := Text.replace versionMark version text
  pure (fromUtf8 readme, header ++ html)

end Code

/-- The format `{}` of a number. -/
def decimal (n : Nat) : List Char := Nat.toDigits 10 n

/-- The format `{:02}`. -/
def twoDigits (n : Nat) : List Char := List.replicate (2 - (decimal n).length) '0' ++ decimal n

/-- The time since boot; there are a hundred ticks to the second. -/
def timeText (ticks : UInt32) : List Char :=
  let seconds := ticks.toNat / 100
  let secondsPerMinute := 60
  let minutesPerHour := 60
  let hoursPerDay := 24
  let secondsPerDay := secondsPerMinute * minutesPerHour * hoursPerDay
  let secondsPerHour := secondsPerMinute * minutesPerHour
  let days := seconds / secondsPerDay
  let hours := seconds % secondsPerDay / secondsPerHour
  let minutes := seconds % secondsPerHour / secondsPerMinute
  let seconds := seconds % secondsPerMinute
  decimal days ++ (" days, ".toList ++ (decimal hours ++ ([':'] ++ (twoDigits minutes ++
    ([':'] ++ twoDigits seconds)))))

/-- What is given to `send_slice` for a request. -/
def response (http : List Char) (ticks : UInt32) : List UInt8 :=
  asBytes (Text.replace timeMark (timeText ticks) http)

/-! ## 2. Text and bytes -/

theorem fromUtf8_asBytes (text : List Char) : fromUtf8 (asBytes text) = some text := by
  have hdecode : (asBytes text).toByteArray.utf8Decode? = some text.toArray :=
    List.utf8Decode?_utf8Encode
  rw [fromUtf8, hdecode]
  rfl

/-! ## 3. The marks -/

/-- The file with both marks filled in, in one pass. -/
def filled (text : List Char) (ticks : UInt32) : List Char :=
  Text.fill [(versionMark, version), (timeMark, timeText ticks)] text

section Marks

theorem timeMark_ne_nil : timeMark ≠ [] := by decide

/-- A text without a dollar sign has no beginning of a mark. -/
theorem no_dollar {x : List Char} (h : '$' ∉ x) : ∀ a ∈ some '$', a ∉ x := by
  intro a ha
  cases ha
  exact h

/-- Both marks begin with a dollar sign and have no other, and the version is a number. -/
theorem version_before (time : List Char) :
    Text.Before (versionMark, version) [(timeMark, time)] := by
  have htail : '$' ∉ timeMark.tail := by decide
  have hzero : '0' ∉ timeMark := by decide
  constructor
  · exact ⟨by decide, List.forall_mem_singleton.mpr timeMark_ne_nil⟩
  · exact List.forall_mem_singleton.mpr (no_dollar htail)
  · decide
  · exact List.forall_mem_singleton.mpr (no_dollar (by decide))
  · refine List.forall_mem_singleton.mpr fun a ha => ?_
    cases ha
    exact hzero

/-- **Filled in at different times, the marks are filled in at once**, and the head stays as it
    is. -/
theorem fill_page (text : List Char) (ticks : UInt32) :
    Text.replace timeMark (timeText ticks) (header ++ Text.replace versionMark version text) =
      header ++ filled text ticks := by
  have hhead : ∀ s, Text.fill [(timeMark, timeText ticks)] (header ++ s) =
      header ++ Text.fill [(timeMark, timeText ticks)] s := fun s => by
    exact Text.fill_append (List.forall_mem_singleton.mpr (no_dollar (by decide)))
      (List.forall_mem_singleton.mpr timeMark_ne_nil)
  rw [Text.replace, Text.replace, hhead, Text.fill_fill (version_before _), filled]

end Marks

/-! ## 4. The time -/

/-- The number at the beginning of a text. -/
def number (s : List Char) : Nat := Nat.ofDigitChars 10 (s.takeWhile Char.isDigit) 0

/-- What stands behind the number, from the next digit on. -/
def behind (s : List Char) : List Char := (s.dropWhile Char.isDigit).dropWhile fun c => !c.isDigit

/-- The seconds a text of days, hours, minutes and seconds stands for. -/
def readTime (s : List Char) : Nat :=
  let hours := behind s
  let minutes := behind hours
  let seconds := behind minutes
  ((number s * 24 + number hours) * 60 + number minutes) * 60 + number seconds

/-- A text of digits with its value. -/
structure Numeral (x : List Char) (n : Nat) : Prop where
  digits : ∀ c ∈ x, c.isDigit
  nonempty : x ≠ []
  value : Nat.ofDigitChars 10 x 0 = n

section Numerals

variable {x y sep rest : List Char} {n m : Nat}

theorem decimal_numeral (n : Nat) : Numeral (decimal n) n := by
  refine ⟨fun c hc => Nat.isDigit_of_mem_toDigits (by decide) (by decide) hc, ?_,
    Nat.ofDigitChars_toDigits (by decide) (by decide)⟩
  exact Nat.toDigits_ne_nil

/-- Zeros in front change nothing. -/
theorem Numeral.padded (h : Numeral x n) (k : Nat) : Numeral (List.replicate k '0' ++ x) n := by
  induction k with
  | zero => exact h
  | succ k ih =>
    rw [List.replicate_succ, List.cons_append]
    refine ⟨?_, List.cons_ne_nil _ _, ?_⟩
    · simp only [List.mem_cons, forall_eq_or_imp]
      exact ⟨by decide, ih.digits⟩
    · rw [Nat.ofDigitChars_cons]
      exact ih.value

theorem twoDigits_numeral (n : Nat) : Numeral (twoDigits n) n := (decimal_numeral n).padded _

/-- No digit follows. -/
def Stops (rest : List Char) : Prop := ∀ c ∈ rest.head?, ¬ c.isDigit

theorem takeWhile_stops (h : Stops rest) : rest.takeWhile Char.isDigit = [] := by
  cases rest with
  | nil => rfl
  | cons c rest => exact List.takeWhile_cons_of_neg (h c rfl)

theorem dropWhile_stops (h : Stops rest) : rest.dropWhile Char.isDigit = rest := by
  cases rest with
  | nil => rfl
  | cons c rest => exact List.dropWhile_cons_of_neg (h c rfl)

/-- A text between two numbers. -/
structure Between (sep : List Char) : Prop where
  none : ∀ c ∈ sep, ¬ c.isDigit
  nonempty : sep ≠ []

theorem Between.stops (h : Between sep) : Stops (sep ++ rest) := by
  cases sep with
  | nil => exact absurd rfl h.nonempty
  | cons c sep =>
    intro d hd
    cases hd
    exact h.none c List.mem_cons_self

theorem number_append (h : Numeral x n) (hrest : Stops rest) : number (x ++ rest) = n := by
  rw [number, List.takeWhile_append_of_pos h.digits, takeWhile_stops hrest, List.append_nil,
    h.value]

/-- The next number stands behind the text between the two. -/
theorem behind_append (hx : Numeral x n) (hsep : Between sep) (hy : Numeral y m) :
    behind (x ++ (sep ++ (y ++ rest))) = y ++ rest := by
  have hdigit : (y ++ rest).dropWhile (fun c => !c.isDigit) = y ++ rest := by
    rcases y with _ | ⟨c, y⟩
    · exact absurd rfl hy.nonempty
    · exact List.dropWhile_cons_of_neg (by simp [hy.digits c List.mem_cons_self])
  rw [behind, List.dropWhile_append_of_pos hx.digits, dropWhile_stops hsep.stops,
    List.dropWhile_append_of_pos (fun c hc => by simp [hsep.none c hc]), hdigit]

/-- Four numbers with a text between each two. -/
theorem readTime_append {d h m s : List Char} {days hours minutes seconds : Nat}
    (hd : Numeral d days) (hh : Numeral h hours) (hm : Numeral m minutes) (hs : Numeral s seconds)
    {b1 b2 b3 : List Char} (h1 : Between b1) (h2 : Between b2) (h3 : Between b3) :
    readTime (d ++ (b1 ++ (h ++ (b2 ++ (m ++ (b3 ++ s)))))) =
      ((days * 24 + hours) * 60 + minutes) * 60 + seconds := by
  have hlast : behind (m ++ (b3 ++ s)) = s := by
    have hbehind : behind (m ++ (b3 ++ (s ++ []))) = s ++ [] := behind_append hm h3 hs
    rwa [List.append_nil] at hbehind
  have hend : number s = seconds := by
    have hnumber : number (s ++ []) = seconds := number_append hs (by simp [Stops])
    rwa [List.append_nil] at hnumber
  simp only [readTime]
  rw [behind_append hd h1 hh, behind_append hh h2 hm, hlast, hend, number_append hd h1.stops,
    number_append hh h2.stops, number_append hm h3.stops]

end Numerals

theorem between_colon : Between [':'] := by
  refine ⟨?_, List.cons_ne_nil _ _⟩
  simp only [List.mem_singleton, forall_eq]
  decide

theorem between_days : Between " days, ".toList := by
  have hall : (" days, ".toList.all fun c => !c.isDigit) = true := by decide
  refine ⟨fun c hc => ?_, by decide⟩
  simpa using List.all_eq_true.mp hall c hc

/-- **The time is read back** from its text, to the second. -/
theorem readTime_timeText (ticks : UInt32) : readTime (timeText ticks) = ticks.toNat / 100 := by
  refine (readTime_append (decimal_numeral _) (decimal_numeral _) (twoDigits_numeral _)
    (twoDigits_numeral _) between_days between_colon between_colon).trans ?_
  omega

/-! ## 5. From the image to the answer -/

/-- A file of an image, in a slot that keeps its name. -/
def Kept (files : List HostFile) (name : List UInt8) (file : HostFile) : Prop :=
  ∃ k, files[k]? = some file ∧ file.name = name ∧ name.length ≤ nameRoom (k + 2)

section Load

variable {files : List HostFile} {root : Inode} {st : List UInt32} {m : Ata.Media}
  {readme index : HostFile}

/-- The service reads a file, whatever state the drive is in. -/
theorem readWhole_media (hdrive : Image (sectors rootDev (diskOf m)) root st files)
    (hfits : Fits files) {name : List UInt8} {file : HostFile} (hkept : Kept files name file) :
    Gives Ata.Drive.media (readWhole slash name) m (.ok file.bytes) m := by
  obtain ⟨k, hk, rfl, hroom⟩ := hkept
  intro x hx
  subst hx
  exact readWhole_drive hdrive hfits hk hroom

/-- Both files are read. -/
theorem loadPage_gives (hdrive : Image (sectors rootDev (diskOf m)) root st files)
    (hfits : Fits files) (hreadme : Kept files readmeName readme)
    (hindex : Kept files indexName index) :
    (∀ text, fromUtf8 index.bytes = some text →
      Gives Ata.Drive.media loadPage m
        (.ok (fromUtf8 readme.bytes, header ++ Text.replace versionMark version text)) m) ∧
    (fromUtf8 index.bytes = none → Gives Ata.Drive.media loadPage m .panic m) := by
  have hfirst := readWhole_media hdrive hfits hreadme
  have hsecond := readWhole_media hdrive hfits hindex
  refine ⟨fun text htext => ?_, fun hnone => ?_⟩
  · refine hfirst.then (hsecond.then ?_)
    rw [htext]
    exact (gives_pure text).then (gives_pure _)
  · refine hfirst.then (hsecond.then ?_)
    rw [hnone]
    exact gives_crash.then_panic

end Load

/-- **The page is handed over.** The image tool was given `README.md` and `index.html` among other
    files, and the drive holds its image. If `index.html` is text, the service starts, logs
    `README.md` if that is text, and leaves the drive as it is. What `send_slice` is given for a
    request is then text: the head and the file with both marks filled in, where the time stands for
    the seconds since boot. If `index.html` is not text the service panics. -/
theorem service_page (d : DiskFile)
    (hfit : tableStart (sectors rootDev d) + 255 < 2 ^ 32)
    (hall : ∀ k, k < numInodes → Vacated (sectors rootDev d) k) (files : List HostFile)
    (hhost : ∀ file ∈ files, 0 ∉ file.path ∧ file.bytes.length < 2 ^ 32) (hfits : Fits files)
    (x : Ata.Drive)
    (hx : ∀ s : UInt32, s.toNat < fsSize →
      x.media (Ide.deviceOf rootDev) s.toNat = (main files d).2.sector s)
    (readme index : HostFile) (hreadme : Kept files readmeName readme)
    (hindex : Kept files indexName index) :
    (∀ text, fromUtf8 index.bytes = some text →
      ∃ http x', loadPage x = (.ok (fromUtf8 readme.bytes, http), x') ∧ x'.media = x.media ∧
        ∀ ticks, fromUtf8 (response http ticks) = some (header ++ filled text ticks) ∧
          readTime (timeText ticks) = ticks.toNat / 100) ∧
    (fromUtf8 index.bytes = none → (loadPage x).1 = .panic) := by
  obtain ⟨_, root, st, himage⟩ := (main_ends (T := DiskFile) rfl hfit hall hhost d rfl).1 hfits
  obtain ⟨htexts, hpanics⟩ := loadPage_gives (image_drive himage hx) hfits hreadme hindex
  refine ⟨fun text htext => ?_, fun hnone => (hpanics hnone x rfl).1⟩
  obtain ⟨hok, hmedia⟩ := htexts text htext x rfl
  refine ⟨_, _, Prod.ext hok rfl, hmedia, fun ticks => ⟨?_, readTime_timeText ticks⟩⟩
  rw [response, fill_page, fromUtf8_asBytes]

/-- A page with both marks. -/
def pageText : List Char := "v$\x7b\x7bVERSION\x7d\x7d, up $\x7b\x7bTIME\x7d\x7d".toList

def pageFiles : List HostFile := [⟨readmeName, asBytes ['#']⟩, ⟨indexName, asBytes pageText⟩]

theorem pageFiles_fits : Fits pageFiles := by
  rw [fits_iff_allAccepted]
  refine ⟨⟨by decide, by decide, ?_, by decide⟩, ⟨by decide, by decide, ?_, by decide⟩, trivial⟩
  · rw [length_dataBlocks]
    decide
  · rw [length_dataBlocks]
    decide

/-- A request a day and a second after boot. -/
theorem service_page_day :
    ∃ http x', loadPage (drivesWith (main pageFiles zeroImage).2) = (.ok (some ['#'], http), x') ∧
      fromUtf8 (response http 8640100) =
        some (header ++ "v0.2.0, up 1 days, 0:00:01".toList) := by
  have hpage := (service_page zeroImage (by decide +kernel) (fun k _ => zeroImage_vacated k)
    pageFiles (by decide) pageFiles_fits (drivesWith (main pageFiles zeroImage).2)
    (fun s _ => drivesWith_media _ _ s) _ _ ⟨0, rfl, rfl, by decide⟩ ⟨1, rfl, rfl, by decide⟩).1
    pageText (fromUtf8_asBytes pageText)
  obtain ⟨http, x', hload, _, hsent⟩ := hpage
  rw [fromUtf8_asBytes] at hload
  have hfilled : filled pageText 8640100 = "v0.2.0, up 1 days, 0:00:01".toList := by decide
  exact ⟨http, x', hload, hfilled ▸ (hsent 8640100).1⟩

end Sprocket.Service
