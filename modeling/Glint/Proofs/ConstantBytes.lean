import Glint.Proofs.InterfaceAccess

/-!
# The bytes of specialization constants

The values of constants are written into the data one after the other, four bytes each or as many
as the constant has room for, and a later value goes over an earlier one. So a byte of the data is
decided by the last constant that reaches it, and stays zero if none does. The constants of a
shader whose scalars take four bytes stand side by side, and their data is one value after the
other.

## Main definitions

* `SpecConstant.Reaches` — the value of a constant is written at a byte
* `SpecData.Filled` — the data of constants, byte by byte
* `TypeEnv.HasWordScalars` — every scalar takes four bytes

## Main results

* `SpecData.getElem?_foldl_write` — the last value that reaches a byte stays
* `SpecData.filled_of_ofValues` — what the data of constants is
* `SpecData.ofValues_of_consecutive` — the data of constants that stand side by side
* `SpecData.ofValues_bytes` — when there is data, and what it is
-/

namespace Glint

theorem length_wordBytes (word : UInt32) : (wordBytes word).length = 4 := rfl

namespace SpecConstant

/-- The value of the constant is written at a byte of the data. Of the four bytes of a value as
many are written as the constant has room for. -/
def Reaches (c : SpecConstant) (p : Nat) : Prop :=
  c.offset.toNat ≤ p ∧ p < c.offset.toNat + min 4 c.size.toNat

instance (c : SpecConstant) (p : Nat) : Decidable (c.Reaches p) :=
  inferInstanceAs (Decidable (_ ∧ _))

variable {c : SpecConstant} {cs : List SpecConstant} {p start : Nat}

theorem length_encode (c : SpecConstant) (value : Int32) :
    (c.encode value).length = min 4 c.size.toNat := by
  rw [encode, List.length_take, length_wordBytes, Nat.min_comm]

theorem getElem?_encode (h : c.Reaches p) (value : Int32) :
    (c.encode value)[p - c.offset.toNat]? =
      (wordBytes (c.word value))[p - c.offset.toNat]? := by
  obtain ⟨hstart, hstop⟩ := h
  rw [encode, List.getElem?_take_of_lt (by omega)]

theorem toNat_size_eq_four (h : c.size = 4) : c.size.toNat = 4 := by
  rw [h]
  rfl

/-- The offset of a constant among others of four bytes that stand one after the other. -/
theorem Consecutive.offset_eq (h : Consecutive start cs) (hsize : ∀ c ∈ cs, c.size = 4) (k : Nat)
    (hk : k < cs.length) : (cs[k]).offset.toNat = start + 4 * k := by
  induction cs generalizing start k with
  | nil => cases hk
  | cons c cs ih =>
    obtain ⟨hoffset, hrest⟩ := h
    obtain ⟨hfour, hsize⟩ := List.forall_mem_cons.mp hsize
    cases k with
    | zero => exact hoffset
    | succ k =>
      have hfour := SpecConstant.toNat_size_eq_four hfour
      rw [List.getElem_cons_succ, ih hrest hsize k (Nat.lt_of_succ_lt_succ hk), hfour]
      omega

end SpecConstant

open SpecConstant (Consecutive)

namespace SpecData

variable {values : String → Option Int32} {c : SpecConstant} {cs : List SpecConstant}
  {value : Int32} {given : List (SpecConstant × Int32)} {data : List UInt8} {p : Nat}

/-! ### Writing values -/

theorem getElem?_overwrite {start : Nat} (h : start ≤ data.length) (bytes : List UInt8) (p : Nat) :
    (overwrite start bytes data)[p]? =
      if start ≤ p ∧ p < start + bytes.length then bytes[p - start]? else data[p]? := by
  have htake : (data.take start).length = start := List.length_take_of_le h
  rw [overwrite, List.append_assoc, List.getElem?_append, htake, List.getElem?_append]
  by_cases hbefore : p < start
  · rw [if_pos hbefore, if_neg (by omega), List.getElem?_take_of_lt hbefore]
  · rw [if_neg hbefore]
    by_cases hinside : p < start + bytes.length
    · rw [if_pos (by omega), if_pos ⟨by omega, hinside⟩]
    · rw [if_neg (by omega), if_neg (by omega), List.getElem?_drop]
      congr 1
      omega

/-- A value is written where its constant reaches, and all other bytes stay. -/
theorem getElem?_write (hfits : c.Fits) (hroom : c.stop.toNat ≤ data.length) (value : Int32)
    (p : Nat) :
    (write data (c, value))[p]? =
      if c.Reaches p then (wordBytes (c.word value))[p - c.offset.toNat]? else data[p]? := by
  rw [hfits.toNat_stop] at hroom
  have hstart : c.offset.toNat ≤ data.length := by omega
  have hread := getElem?_overwrite hstart (c.encode value) p
  rw [SpecConstant.length_encode] at hread
  by_cases hreach : c.Reaches p
  · rw [if_pos hreach, ← SpecConstant.getElem?_encode hreach]
    exact hread.trans (if_pos hreach)
  · rw [if_neg hreach]
    exact hread.trans (if_neg hreach)

/-- There is room for the values of all constants. -/
def HasRoom (given : List (SpecConstant × Int32)) (data : List UInt8) : Prop :=
  ∀ g ∈ given, g.1.Fits ∧ g.1.stop.toNat ≤ data.length

/-- A write keeps the length, so there is room for the later values still. -/
theorem HasRoom.write (h : HasRoom ((c, value) :: given) data) :
    HasRoom given (SpecData.write data (c, value)) := by
  obtain ⟨⟨hfits, hroom⟩, hrest⟩ := List.forall_mem_cons.mp h
  rw [HasRoom, length_write value hroom hfits]
  exact hrest

theorem length_foldl_write (h : HasRoom given data) :
    (given.foldl write data).length = data.length := by
  induction given generalizing data with
  | nil => rfl
  | cons g given ih =>
    obtain ⟨hfits, hroom⟩ := h g List.mem_cons_self
    rw [List.foldl_cons, ih h.write, length_write g.2 hroom hfits]

/-- A byte that no constant reaches stays as it was. -/
theorem getElem?_foldl_write_of_forall (h : HasRoom given data)
    (hnone : ∀ g ∈ given, ¬ g.1.Reaches p) : (given.foldl write data)[p]? = data[p]? := by
  induction given generalizing data with
  | nil => rfl
  | cons g given ih =>
    obtain ⟨hfits, hroom⟩ := h g List.mem_cons_self
    obtain ⟨hfirst, hrest⟩ := List.forall_mem_cons.mp hnone
    rw [List.foldl_cons, ih h.write hrest, getElem?_write hfits hroom, if_neg hfirst]

/-- The last value that reaches a byte stays. -/
theorem getElem?_foldl_write {before after : List (SpecConstant × Int32)}
    (h : HasRoom (before ++ (c, value) :: after) data) (hreach : c.Reaches p)
    (hlast : ∀ g ∈ after, ¬ g.1.Reaches p) :
    ((before ++ (c, value) :: after).foldl write data)[p]? =
      (wordBytes (c.word value))[p - c.offset.toNat]? := by
  induction before generalizing data with
  | nil =>
    obtain ⟨hfits, hroom⟩ := h (c, value) List.mem_cons_self
    rw [List.nil_append, List.foldl_cons, getElem?_foldl_write_of_forall h.write hlast,
      getElem?_write hfits hroom, if_pos hreach]
  | cons g before ih => exact ih h.write

/-! ### Looking values up -/

theorem valueOf_eq_ok_iff {g : SpecConstant × Int32} :
    valueOf values c = .ok g ↔ g.1 = c ∧ values c.name = some g.2 := by
  rw [valueOf]
  cases values c.name with
  | none => simp
  | some value => simp [Prod.ext_iff, eq_comm]

theorem exists_valueOf_iff : (∃ g, valueOf values c = .ok g) ↔ (values c.name).isSome = true := by
  rw [valueOf]
  cases values c.name <;> simp

theorem valueOf_eq_error_iff {e : ReflectError} :
    valueOf values c = .error e ↔ values c.name = none ∧ e = .missingValue c.name := by
  rw [valueOf]
  cases values c.name <;> simp [eq_comm]

/-- The values are those given for the names, constant by constant. -/
theorem mapM_valueOf_eq_ok_iff :
    cs.mapM (valueOf values) = .ok given ↔
      given.map Prod.fst = cs ∧ ∀ g ∈ given, values g.1.name = some g.2 := by
  induction cs generalizing given with
  | nil =>
    rw [List.map_eq_nil_iff]
    constructor
    · rintro ⟨⟩
      exact ⟨rfl, List.forall_mem_nil _⟩
    · rintro ⟨rfl, -⟩
      rfl
  | cons c cs ih =>
    simp only [List.mapM_cons, Outcome.bind_eq_ok, Outcome.pure_eq_ok, ih, valueOf_eq_ok_iff]
    constructor
    · rintro ⟨g, ⟨rfl, hvalue⟩, rest, ⟨rfl, hvalues⟩, rfl⟩
      exact ⟨rfl, List.forall_mem_cons.mpr ⟨hvalue, hvalues⟩⟩
    · rintro ⟨hfirst, hvalues⟩
      cases given with
      | nil => cases hfirst
      | cons g rest =>
        obtain ⟨rfl, rfl⟩ := List.cons.inj hfirst
        obtain ⟨hvalue, hvalues⟩ := List.forall_mem_cons.mp hvalues
        exact ⟨g, ⟨rfl, hvalue⟩, rest, ⟨rfl, hvalues⟩, rfl⟩

theorem ofValues_eq_ok_iff {d : SpecData} :
    ofValues cs values = .ok d ↔
      ∃ given, cs.mapM (valueOf values) = .ok given ∧
        d = ⟨cs, given.foldl write (List.replicate (length cs) 0)⟩ := by
  simp only [ofValues, Outcome.bind_eq_ok, Outcome.pure_eq_ok, eq_comm (a := d)]

/-- There is data exactly if every constant is given a value. -/
theorem exists_ofValues_iff :
    (∃ d, ofValues cs values = .ok d) ↔ ∀ c ∈ cs, (values c.name).isSome = true := by
  simp only [← exists_valueOf_iff, ← Outcome.exists_mapM_eq_ok_iff, ofValues_eq_ok_iff]
  constructor
  · rintro ⟨_, given, hgiven, -⟩
    exact ⟨given, hgiven⟩
  · rintro ⟨given, hgiven⟩
    exact ⟨_, given, hgiven, rfl⟩

/-- The first constant without a value is reported. -/
theorem ofValues_eq_error_iff {e : ReflectError} :
    ofValues cs values = .error e ↔
      ∃ before c after, cs = before ++ c :: after ∧
        (∀ earlier ∈ before, (values earlier.name).isSome = true) ∧
        values c.name = none ∧ e = .missingValue c.name := by
  simp only [ofValues, Outcome.bind_eq_error, pure, Except.pure, reduceCtorEq, and_false,
    exists_false, or_false, Outcome.mapM_eq_error_iff, exists_valueOf_iff, valueOf_eq_error_iff]

theorem valueOf_congr {values' : String → Option Int32} (h : values' c.name = values c.name) :
    valueOf values' c = valueOf values c := by
  rw [valueOf, valueOf, h]

/-- Values of names that no constant has do not matter. -/
theorem ofValues_congr {values' : String → Option Int32}
    (h : ∀ c ∈ cs, values' c.name = values c.name) : ofValues cs values' = ofValues cs values := by
  rw [ofValues, ofValues, Outcome.mapM_congr fun c hc => valueOf_congr (h c hc)]

/-! ### The data byte by byte -/

/-- The data of constants for given values. It ends with the constant that ends last, every byte
of it that a constant reaches is a byte of the value of the last one, and the others are zero. -/
structure Filled (values : String → Option Int32) (cs : List SpecConstant) (d : SpecData) :
    Prop where
  constants : d.constants = cs
  length : d.data.length = ((cs.map fun c => c.offset.toNat + c.size.toNat).max?).getD 0
  last : ∀ before c after p, cs = before ++ c :: after → c.Reaches p →
    (∀ later ∈ after, ¬ later.Reaches p) →
      ∃ value, values c.name = some value ∧
        d.data[p]? = (wordBytes (c.word value))[p - c.offset.toNat]?
  zero : ∀ p < d.data.length, (∀ c ∈ cs, ¬ c.Reaches p) → d.data[p]? = some 0

/-- The constants need as many bytes as there are up to the last of their ends. -/
theorem length_eq (h : ∀ c ∈ cs, c.Fits) :
    length cs = ((cs.map fun c => c.offset.toNat + c.size.toNat).max?).getD 0 := by
  have hstops : cs.map (fun c => c.stop.toNat) = cs.map fun c => c.offset.toNat + c.size.toNat :=
    List.map_congr_left fun c hc => (h c hc).toNat_stop
  rw [length, hstops]
  cases cs with
  | nil => rfl
  | cons c cs =>
    rw [List.map_cons, List.max?_cons', List.foldl_cons, Nat.zero_max, Option.getD_some]

theorem hasRoom_replicate (h : ∀ c ∈ given.map Prod.fst, c.Fits) :
    HasRoom given (List.replicate (length (given.map Prod.fst)) 0) := by
  intro g hg
  have hmem : g.1 ∈ given.map Prod.fst := List.mem_map_of_mem hg
  rw [List.length_replicate]
  exact ⟨h g.1 hmem, stop_le_length hmem⟩

theorem filled_of_ofValues {d : SpecData} (h : ∀ c ∈ cs, c.Fits) (hd : ofValues cs values = .ok d) :
    Filled values cs d := by
  obtain ⟨given, hgiven, rfl⟩ := ofValues_eq_ok_iff.mp hd
  obtain ⟨rfl, hvalues⟩ := mapM_valueOf_eq_ok_iff.mp hgiven
  have hroom := hasRoom_replicate h
  have hlength := length_foldl_write hroom
  rw [List.length_replicate] at hlength
  refine ⟨rfl, hlength.trans (length_eq h), ?_, ?_⟩
  · intro before c after p hsplit hreach hlast
    -- The constant stands among the values where it stands in the list.
    obtain ⟨before, rest, rfl, rfl, hrest⟩ := List.map_eq_append_iff.mp hsplit
    obtain ⟨⟨c, value⟩, after, rfl, rfl, rfl⟩ := List.map_eq_cons_iff.mp hrest
    refine ⟨value, hvalues _ (List.mem_append_right _ List.mem_cons_self), ?_⟩
    exact getElem?_foldl_write hroom hreach fun g hg => hlast g.1 (List.mem_map_of_mem hg)
  · intro p hp hnone
    rw [hlength] at hp
    have hstays := getElem?_foldl_write_of_forall hroom fun g hg =>
      hnone g.1 (List.mem_map_of_mem hg)
    rw [hstays, List.getElem?_replicate, if_pos hp]

/-! ### Constants that stand side by side -/

/-- The data of constants that stand one after the other is as long as all of them. -/
theorem foldl_max_stop {start : Nat} (h : Consecutive start cs) (hfits : ∀ c ∈ cs, c.Fits) :
    (cs.map fun c => c.stop.toNat).foldl max start = start + Word.sum (cs.map (·.size)) := by
  induction cs generalizing start with
  | nil => rfl
  | cons c cs ih =>
    obtain ⟨hoffset, hrest⟩ := h
    obtain ⟨hfit, hfits⟩ := List.forall_mem_cons.mp hfits
    have hstop : max start c.stop.toNat = start + c.size.toNat := by
      rw [hfit.toNat_stop, hoffset]
      omega
    rw [List.map_cons, List.foldl_cons, hstop, ih hrest hfits, List.map_cons, Word.sum_cons,
      Nat.add_assoc]

theorem sum_size_eq (h : ∀ c ∈ cs, c.size = 4) : Word.sum (cs.map (·.size)) = 4 * cs.length := by
  induction cs with
  | nil => rfl
  | cons c cs ih =>
    obtain ⟨hfour, hrest⟩ := List.forall_mem_cons.mp h
    have hfour := SpecConstant.toNat_size_eq_four hfour
    rw [List.map_cons, Word.sum_cons, ih hrest, hfour, List.length_cons]
    omega

/-- Values of four bytes that are written side by side stand one after the other. -/
theorem foldl_write_of_consecutive (h : Consecutive data.length (given.map Prod.fst))
    (hsize : ∀ g ∈ given, g.1.size = 4) :
    given.foldl write (data ++ List.replicate (4 * given.length) 0) =
      data ++ given.flatMap fun g => wordBytes (g.1.word g.2) := by
  -- By induction on the values that are left, with the bytes of the others in front.
  induction given generalizing data with
  | nil => simp
  | cons g given ih =>
    obtain ⟨hoffset, hrest⟩ := h
    obtain ⟨hfour, hsize⟩ := List.forall_mem_cons.mp hsize
    have hfour := SpecConstant.toNat_size_eq_four hfour
    have hencode : g.1.encode g.2 = wordBytes (g.1.word g.2) := by
      rw [SpecConstant.encode, hfour]
      rfl
    have hzeros : List.replicate (4 * (given.length + 1)) (0 : UInt8) =
        List.replicate 4 0 ++ List.replicate (4 * given.length) 0 := by
      rw [List.replicate_append_replicate, Nat.mul_succ, Nat.add_comm]
    have hstep : write (data ++ List.replicate (4 * (given.length + 1)) 0) g =
        (data ++ wordBytes (g.1.word g.2)) ++ List.replicate (4 * given.length) 0 := by
      rw [write, overwrite, hencode, hoffset, length_wordBytes, List.take_left, hzeros,
        ← List.append_assoc data, List.drop_left' (by simp)]
    rw [List.length_cons, List.foldl_cons, hstep, ih ?_ hsize, List.flatMap_cons,
      List.append_assoc]
    rw [List.length_append, length_wordBytes, ← hfour]
    exact hrest

/-- The data of constants of four bytes that stand side by side is one value after the other. -/
theorem ofValues_of_consecutive {value : SpecConstant → Int32} (hplaces : Consecutive 0 cs)
    (hfits : ∀ c ∈ cs, c.Fits) (hsize : ∀ c ∈ cs, c.size = 4)
    (hvalues : ∀ c ∈ cs, values c.name = some (value c)) :
    ofValues cs values = .ok ⟨cs, cs.flatMap fun c => wordBytes (c.word (value c))⟩ := by
  have hfst : (cs.map fun c => (c, value c)).map Prod.fst = cs := by
    rw [List.map_map]
    exact List.map_id cs
  have hlength : length cs = 4 * (cs.map fun c => (c, value c)).length := by
    rw [length, foldl_max_stop hplaces hfits, sum_size_eq hsize, Nat.zero_add, List.length_map]
  have hwritten : (cs.map fun c => (c, value c)).foldl write (List.replicate (length cs) 0) =
      (cs.map fun c => (c, value c)).flatMap fun g => wordBytes (g.1.word g.2) := by
    rw [hlength]
    have hplaces' : Consecutive ([] : List UInt8).length
        ((cs.map fun c => (c, value c)).map Prod.fst) := hfst.symm ▸ hplaces
    exact foldl_write_of_consecutive hplaces' (List.forall_mem_map.mpr hsize)
  refine ofValues_eq_ok_iff.mpr ⟨_, mapM_valueOf_eq_ok_iff.mpr ⟨hfst, ?_⟩, ?_⟩
  · exact List.forall_mem_map.mpr hvalues
  · rw [hwritten, List.flatMap_map]

end SpecData

/-- Every scalar among the value types takes four bytes. -/
def TypeEnv.HasWordScalars (env : TypeEnv) : Prop :=
  ∀ name type, env.value? name = some type → type.isScalar = true → type.size = 4

theorem TypeEnv.hasWordScalars_glsl (structs : String → Option StructType) :
    { glsl with struct? := structs }.HasWordScalars := by
  have hall : ∀ entry ∈ glslValues, entry.2.isScalar = true → entry.2.size = 4 := by decide
  exact fun _ _ => of_lookup_glslValues (P := fun type => type.isScalar = true → type.size = 4) hall

/-- The specialization constants of a shader have the four bytes of a scalar. -/
theorem Interface.size_specConstant {env : TypeEnv} {source : ShaderText} {i : Interface}
    (henv : env.HasWordScalars) (h : ofText env source = .ok i) :
    ∀ c ∈ i.specConstants, c.size = 4 := by
  intro c hc
  obtain ⟨type, htype, hscalar, -, hsize⟩ := (specConstants_of_ofText h).1 c hc
  rw [hsize]
  exact henv c.glslType type htype hscalar

namespace SpecData

/-- Constants that end within a word have data exactly if each is given a value, and the first
that is not is reported. The data is that of the constants byte by byte, and values of other
names do not matter. The constants of a shader stand side by side, and their data is one value
after the other. -/
theorem ofValues_bytes (values : String → Option Int32) :
    (∀ cs : List SpecConstant, (∀ c ∈ cs, c.Fits) →
      ((∃ d, ofValues cs values = .ok d) ↔ ∀ c ∈ cs, (values c.name).isSome = true) ∧
      (∀ e, ofValues cs values = .error e ↔
        ∃ before c after, cs = before ++ c :: after ∧
          (∀ earlier ∈ before, (values earlier.name).isSome = true) ∧
          values c.name = none ∧ e = .missingValue c.name) ∧
      ∀ d, ofValues cs values = .ok d → Filled values cs d) ∧
    (∀ (cs : List SpecConstant) (values' : String → Option Int32),
      (∀ c ∈ cs, values' c.name = values c.name) → ofValues cs values' = ofValues cs values) ∧
    ∀ (env : TypeEnv) (source : ShaderText) (i : Interface), env.HasWordScalars →
      Interface.ofText env source = .ok i →
        (∀ k (hk : k < i.specConstants.length),
          (i.specConstants[k]).offset.toNat = 4 * k ∧ (i.specConstants[k]).size = 4) ∧
        ∀ value : SpecConstant → Int32,
          (∀ c ∈ i.specConstants, values c.name = some (value c)) →
            i.specData values = .ok ⟨i.specConstants,
              i.specConstants.flatMap fun c => wordBytes (c.word (value c))⟩ := by
  refine ⟨?_, ?_, ?_⟩
  · intro cs hfits
    exact ⟨exists_ofValues_iff, fun e => ofValues_eq_error_iff, fun d => filled_of_ofValues hfits⟩
  · intro cs values' h
    exact ofValues_congr h
  · intro env source i henv h
    obtain ⟨-, hplaces, hfits⟩ := Interface.specConstants_of_ofText h
    have hsize := Interface.size_specConstant henv h
    refine ⟨?_, fun value => ofValues_of_consecutive hplaces hfits hsize⟩
    intro k hk
    refine ⟨?_, hsize _ (List.getElem_mem hk)⟩
    rw [hplaces.offset_eq hsize k hk, Nat.zero_add]

/-- Values for the constants below. -/
def settings : String → Option Int32
  | "count" => some 0x01020304
  | "bias" => some 2
  | "wide" => some (-1)
  | _ => none

/-- Two constants that overlap, and one with more room than its value takes. -/
def overlapping : List SpecConstant :=
  [⟨0, "count", "uint", .uint32, 4, 0⟩, ⟨1, "bias", "float", .float32, 4, 2⟩,
    ⟨2, "wide", "int", .int32, 8, 6⟩]

/-- A shader with two specialization constants. -/
def waves : ShaderText :=
  ⟨"waves.comp", .compute,
    "layout(constant_id=0) const uint count=1;layout(constant_id=1) const float bias=0.0;"⟩

/-- The constants of the shader. -/
def waveConstants : List SpecConstant :=
  [⟨0, "count", "uint", .uint32, 4, 0⟩, ⟨1, "bias", "float", .float32, 4, 4⟩]

theorem ofValues_bytes_overlapping :
    (∀ c ∈ overlapping, c.Fits) ∧
    (∃ d, ofValues overlapping settings = .ok d ∧ Filled settings overlapping d ∧
      d.data = [4, 3, 0, 0, 0, 64, 255, 255, 255, 255, 0, 0, 0, 0]) ∧
    TypeEnv.glsl.HasWordScalars ∧
    ∃ i, Interface.ofText .glsl waves = .ok i ∧
      i.specData settings = .ok ⟨waveConstants, [4, 3, 2, 1, 0, 0, 0, 64]⟩ := by
  have hfits : ∀ c ∈ overlapping, c.Fits := by
    unfold SpecConstant.Fits
    decide
  have hglsl : TypeEnv.glsl.HasWordScalars := TypeEnv.hasWordScalars_glsl _
  refine ⟨hfits, ?_, hglsl, ?_⟩
  · have hdata : (ofValues overlapping settings).map data =
        .ok [4, 3, 0, 0, 0, 64, 255, 255, 255, 255, 0, 0, 0, 0] := by
      decide +kernel
    obtain ⟨d, hd, hbytes⟩ := Outcome.map_eq_ok.mp hdata
    exact ⟨d, hd, ((ofValues_bytes settings).1 overlapping hfits).2.2 d hd, hbytes⟩
  · have hconstants : (Interface.ofText .glsl waves).map (·.specConstants) = .ok waveConstants := by
      decide +kernel
    obtain ⟨i, hi, hcs⟩ := Outcome.map_eq_ok.mp hconstants
    have hspec := ((ofValues_bytes settings).2.2 .glsl waves i hglsl hi).2
      (fun c => (settings c.name).getD 0)
    rw [hcs] at hspec
    exact ⟨i, hi, hspec (by decide)⟩

end SpecData

end Glint
