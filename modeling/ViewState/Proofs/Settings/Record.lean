import ViewState.Composition
import ViewState.Hash.Blake3
import ViewState.Persistence
import ViewState.Proofs.Text.Decimal
import ViewState.Settings.Record
import ViewState.Template.Window
import ViewState.Text.Blank

/-!
Typed settings through their texts. Each name is answered for by one field, and a reader takes the
text of a field back for the value that the field holds, the greatest and the least numbers
included.
-/
namespace ViewState

namespace Settings

theorem Key.ofName?_name (key : Key) : ofName? key.name = some key := by
  cases key <;> decide

theorem trim_of_numeral {s : String} (h : ∀ c ∈ s.toList, c = '-' ∨ Text.Decimal.IsDigit c) :
    Text.trim s = s := by
  -- a bounded quantifier could be decided by going through all characters that there are
  have hblanks : Text.blanks.all fun c => c ≠ '-' ∧ ¬ Text.Decimal.IsDigit c := by decide
  refine Text.trim_eq_self fun c hc => Bool.eq_false_iff.2 fun hblank => ?_
  have hother := List.all_eq_true.1 hblanks c (List.contains_iff_mem.1 hblank)
  obtain ⟨hsign, hdigit⟩ := of_decide_eq_true hother
  exact (h c hc).elim hsign hdigit

theorem parseBool_boolText (b : Bool) : parseBool (Record.boolText b) = some b := by
  have hletters : (Record.boolText b).toList.all fun c => Text.isBlank c = false := by
    cases b <;> decide
  have htrim : Text.trim (Record.boolText b) = Record.boolText b :=
    Text.trim_eq_self fun c hc => of_decide_eq_true (List.all_eq_true.1 hletters c hc)
  rw [parseBool, htrim]
  cases b <;> decide

namespace Record

/-- The numbers of a record are signed or unsigned words of 64 bits. -/
structure Bounded (r : Record) : Prop where
  signed : ∀ period ∈ [r.refreshPeriod, r.viewMetadataRefresh, r.compositeMetadataRefresh],
    ∀ n ∈ period, -0x8000000000000000 ≤ n ∧ n < 0x8000000000000000
  unsigned : ∀ size ∈ [r.viewsInSession, r.idTableSize], ∀ n ∈ size, n < UInt64.size

def period (r : Record) : Template.Namespace → Int
  | .standard => r.refreshPeriod.getD (-1)
  | .viewMetadata => r.viewMetadataRefresh.getD (r.refreshPeriod.getD (-1))
  | .compositeMetadata => r.compositeMetadataRefresh.getD (r.refreshPeriod.getD (-1))

def flag (r : Record) : Flag → Option Bool
  | .buildingViewMetadata => r.buildingViewMetadata
  | .refreshingTransientBuild => r.refreshingTransientBuild
  | .markInitialState => r.markInitialState

variable {r : Record}

theorem lookup_name (r : Record) (key : Key) : r.lookup key.name = r.get key := by
  rw [lookup, Key.ofName?_name]
  rfl

theorem readInt_lookup (r : Record) (key : Key) {value : Option Int}
    (hget : r.get key = value.map Text.Decimal.ofInt)
    (hword : ∀ n ∈ value, -0x8000000000000000 ≤ n ∧ n < 0x8000000000000000) (default : Int) :
    readInt r.lookup key.name default = value.getD default := by
  rw [readInt, lookup_name, hget]
  cases value with
  | none => rfl
  | some n =>
    obtain ⟨hlow, hhigh⟩ := hword n rfl
    have htrim := trim_of_numeral fun c hc => Text.Decimal.mem_ofInt (n := n) hc
    rw [Option.map_some, Option.bind_some, htrim, Text.Decimal.readInt64_ofInt hlow hhigh]

theorem readSize_lookup (r : Record) (key : Key) {value : Option Nat}
    (hget : r.get key = value.map Text.Decimal.ofNat) (hword : ∀ n ∈ value, n < UInt64.size)
    (default : Nat) : readSize r.lookup key.name default = value.getD default := by
  rw [readSize, lookup_name, hget]
  cases value with
  | none => rfl
  | some n =>
    have htrim : Text.trim (Text.Decimal.ofNat n) = Text.Decimal.ofNat n :=
      trim_of_numeral fun c hc => Text.Decimal.mem_ofInt (n := (n : Int)) hc
    rw [Option.map_some, Option.bind_some, htrim, Text.Decimal.readWord64_ofNat (hword n rfl)]

theorem readBool_lookup (r : Record) (key : Key) {value : Option Bool}
    (hget : r.get key = value.map boolText) (default : Bool) :
    readBool r.lookup key.name default = value.getD default := by
  rw [readBool, lookup_name, hget]
  cases value with
  | none => rfl
  | some b => rw [Option.map_some, Option.bind_some, parseBool_boolText]

theorem windows_lookup (h : r.Bounded) (ns : Template.Namespace) :
    Template.Windows.ofSettings r.lookup ns = .ofSeconds (r.period ns) := by
  have hread (key : Key) {value : Option Int} (hget : r.get key = value.map Text.Decimal.ofInt)
      (hmem : value ∈ [r.refreshPeriod, r.viewMetadataRefresh, r.compositeMetadataRefresh])
      (default : Int) : readInt r.lookup key.name default = value.getD default :=
    readInt_lookup r key hget (h.signed value hmem) default
  unfold Template.Windows.ofSettings
  rw [hread .refreshPeriod rfl (by simp)]
  cases ns with
  | standard => rfl
  | viewMetadata =>
    exact congrArg Template.Window.ofSeconds (hread .viewMetadataRefresh rfl (by simp) _)
  | compositeMetadata =>
    exact congrArg Template.Window.ofSeconds (hread .compositeMetadataRefresh rfl (by simp) _)

theorem retention_lookup (h : r.Bounded) (hash : Hash) :
    Retention.ofSettings hash r.lookup =
      ⟨max 1 (r.viewsInSession.getD 20),
        (r.clientSecret.filter fun secret => !secret.isEmpty).map (Envelope.keyOf hash)⟩ := by
  have hviews : readSize r.lookup Key.viewsInSession.name Retention.defaultViews =
      r.viewsInSession.getD 20 := readSize_lookup r _ rfl (h.unsigned _ (by simp)) _
  rw [Retention.ofSettings, hviews, lookup_name]
  rfl

theorem readBool_flag (r : Record) (f : Flag) :
    readBool r.lookup f.key.name false = (r.flag f).getD false := by
  have hget : r.get f.key = (r.flag f).map boolText := by cases f <;> rfl
  exact readBool_lookup r f.key hget false

/-- What is read of a record by way of texts is what the record holds: a window for each period,
with the base period in place of one that is not set; the number of views, of which one is kept at
least; a key, which is there if the secret is set and not empty; the size of the table of
identifiers; and the flags of a pass. -/
theorem readers_eq_fields (h : r.Bounded) (hash : Hash) (ids : Identifier.Allocator) :
    (∀ ns, Template.Windows.ofSettings r.lookup ns = .ofSeconds (r.period ns)) ∧
      (Retention.ofSettings hash r.lookup).views = max 1 (r.viewsInSession.getD 20) ∧
      (Retention.ofSettings hash r.lookup).key =
        (r.clientSecret.filter fun secret => !secret.isEmpty).map (Envelope.keyOf hash) ∧
      ((Retention.ofSettings hash r.lookup).key.isSome ↔ ∃ secret ∈ r.clientSecret, secret ≠ "") ∧
      readSize r.lookup Key.idTableSize.name Identifier.Table.defaultSize =
        r.idTableSize.getD 100 ∧
      Identifier.Table.ofSettings r.lookup =
        .ofSize Identifier.componentStem (r.idTableSize.getD 100) ∧
      (∀ f : Flag, readBool r.lookup f.key.name false = (r.flag f).getD false ∧
        ((Composition.new ids).flag (.ofLookup r.lookup) f).1 = (r.flag f).getD false) := by
  have hsize : readSize r.lookup Key.idTableSize.name Identifier.Table.defaultSize =
      r.idTableSize.getD 100 := readSize_lookup r _ rfl (h.unsigned _ (by simp)) _
  rw [retention_lookup h]
  refine ⟨windows_lookup h, rfl, rfl, ?_, hsize, ?_, fun f => ⟨readBool_flag r f, ?_⟩⟩
  · rw [Option.isSome_map, Option.isSome_filter, Option.any_eq_true]
    refine exists_congr fun secret => and_congr_right fun _ => ?_
    rw [Bool.not_eq_true', String.isEmpty_eq_false_iff]
  · rw [Identifier.Table.ofSettings, hsize]
  · exact readBool_flag r f

/-- The extremes of both kinds of words, and a secret that is blank but not empty. -/
theorem readers_eq_fields_extreme :
    let r : Record := { empty with
      refreshPeriod := some (-0x8000000000000000)
      viewMetadataRefresh := some 0x7fffffffffffffff
      viewsInSession := some 0
      idTableSize := some 0xffffffffffffffff
      clientSecret := some " "
      markInitialState := some true }
    r.Bounded ∧
      Template.Windows.ofSettings r.lookup .standard = .infinite ∧
      Template.Windows.ofSettings r.lookup .viewMetadata = .every 0xffffffffffffffff ∧
      Template.Windows.ofSettings r.lookup .compositeMetadata = .infinite ∧
      (Retention.ofSettings Blake3.hash r.lookup).views = 1 ∧
      (Retention.ofSettings Blake3.hash r.lookup).key.isSome ∧
      readSize r.lookup Key.idTableSize.name Identifier.Table.defaultSize = 0xffffffffffffffff ∧
      ((Composition.new (.new none)).flag (.ofLookup r.lookup) .markInitialState).1 = true := by
  intro r
  have hbounded : r.Bounded := by
    constructor
    · simp [r, empty]
    · simp [r]
  obtain ⟨hwindows, hviews, -, hkey, hsize, -, hflags⟩ :=
    readers_eq_fields hbounded Blake3.hash (.new none)
  refine ⟨hbounded, hwindows .standard, hwindows .viewMetadata, hwindows .compositeMetadata, hviews,
    hkey.2 ⟨" ", rfl, by decide⟩, hsize, ?_⟩
  exact (hflags .markInitialState).2

end Record

end Settings

end ViewState
