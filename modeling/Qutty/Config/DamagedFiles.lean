import Qutty.Config.ReadingElements

/-!
# Damaged configuration files

What `QXmlStreamReader` makes of some bytes: the tags up to the end or up to the first
error.  `readFromXML` does not ask for the error, and returns 0 as well where the root is
another one, for `return false` is 0 as an `int`.

So it never reports a damaged file (`damage_not_reported`): what there is of it is read
as if the end tags that are missing were there, and is stored.
-/

namespace Qutty
namespace Config

open Lib Lib.ByteOrder Lib.PullParser Menu

section Damage

variable {K : Type} (plat : Platform K)

/-- The tags of an input, and whether they end with an error. -/
structure XmlInput where
  events : Xml
  error : Bool

/-- A complete document with the root that it must have. -/
def XmlInput.Complete (x : XmlInput) : Prop :=
  x.error = false ∧ ∃ root, (readNextStartElement x.events).1 = some root ∧ QuttyRoot root

/-- Reading returns what it returns for no complete document, and leaves the configuration
as it was. -/
def ReportsDamage (cfg : QtConfig K) (x : XmlInput) : Prop :=
  ∃ rc, readFromXML plat cfg x.events = some (rc, cfg) ∧
    ∀ (y : XmlInput) (before : QtConfig K) (result : Int × QtConfig K), y.Complete →
      readFromXML plat before y.events = some result → result.1 ≠ rc

/-- Whatever is read, the value is 0. -/
theorem readFromXML_value {cfg : QtConfig K} {es : Xml} {result : Int × QtConfig K}
    (h : readFromXML plat cfg es = some result) : result.1 = 0 := by
  unfold readFromXML at h
  split at h
  · obtain rfl := Option.some.inj h
    rfl
  · split_ifs at h
    · obtain rfl := Option.some.inj h
      rfl
    · obtain ⟨r, -, rfl⟩ := Option.map_eq_some_iff.mp h
      rfl

/-- **End tags that are missing make no difference.** -/
theorem readFromXML_append_stops (cfg : QtConfig K) (es : Xml) (n : Nat) :
    readFromXML plat cfg (es ++ List.replicate n .stop) = readFromXML plat cfg es := by
  match es with
  | [] => cases n <;> rfl
  | .stop :: es => rfl
  | .start root :: es =>
      obtain ⟨sections, rest, hc⟩ := exists_content es
      obtain ⟨m, hcut⟩ := hc.append_stops n
      by_cases hroot : QuttyRoot root
      · rw [List.cons_append, readFromXML_eq plat cfg hroot hcut, readFromXML_eq plat cfg hroot hc]
      · have hnot : ∀ es : Xml, readFromXML plat cfg (.start root :: es) = some (0, cfg) :=
          fun es => readFromXML_of_not_root plat cfg (fun r hr => by
            obtain rfl := Option.some.inj hr
            exact hroot)
        rw [List.cons_append, hnot, hnot]

/-- The document without sections. -/
def emptyDocument : XmlInput :=
  ⟨[.start ⟨nameQutty, [(attrVersion, version20)]⟩, .stop], false⟩

theorem complete_emptyDocument : emptyDocument.Complete :=
  ⟨rfl, _, rfl, rfl, rfl⟩

/-- **No damage is reported, for any bytes**, and a file that ends early is read like the
file with its end tags. -/
theorem damage_not_reported (parse : List UInt8 → XmlInput) (bytes : List UInt8)
    (cfg : QtConfig K) :
    ¬ ReportsDamage plat cfg (parse bytes) ∧
      ∀ n, readFromXML plat cfg ((parse bytes).events ++ List.replicate n .stop) =
        readFromXML plat cfg (parse bytes).events := by
  refine ⟨?_, readFromXML_append_stops plat cfg _⟩
  rintro ⟨rc, hread, hother⟩
  -- the document without sections is read, with the same value
  have hempty : readFromXML plat cfg emptyDocument.events = some (0, cfg) := rfl
  exact hother emptyDocument cfg (0, cfg) complete_emptyDocument hempty
    (readFromXML_value plat hread).symm

/-- A platform where texts are taken as they are. -/
def plainPlatform (openSettings : Conf) : Platform Text where
  keys := ⟨id, id, List.isEmpty⟩
  openSettings := openSettings
  fromLocal8Bit := asciiText
  gssapi := false

/-- A file that ends behind the start tag of the session `a`. -/
def cutInSession : XmlInput :=
  ⟨[.start ⟨nameQutty, [(attrVersion, version20)]⟩,
    .start ⟨nameConfig, [(attrVersion, version20), (attrName, ['a'])]⟩], true⟩

/-- The session is stored, and 0 is returned. -/
theorem not_reportsDamage_cutInSession :
    ¬ cutInSession.Complete ∧
      ¬ ReportsDamage (plainPlatform Conf.new) (QtConfig.empty Text) cutInSession ∧
      ∃ cfg, readFromXML (plainPlatform Conf.new) (QtConfig.empty Text) cutInSession.events =
        some (0, cfg) ∧ (cfg.configList.session ['a']).isSome := by
  have hread : ∃ cfg, readFromXML (plainPlatform Conf.new) (QtConfig.empty Text)
      cutInSession.events = some (0, cfg) ∧ (cfg.configList.session ['a']).isSome := ⟨_, rfl, rfl⟩
  refine ⟨fun h => absurd h.1 (by decide), ?_, hread⟩
  rintro ⟨rc, hsame, -⟩
  obtain ⟨cfg, hcfg, hstored⟩ := hread
  rw [hcfg, Option.some.injEq, Prod.mk.injEq] at hsame
  rw [hsame.2] at hstored
  exact absurd hstored (by decide)

end Damage

end Config
end Qutty
