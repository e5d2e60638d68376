import Qutty.Lib.OrderedMap
import Qutty.Lib.Text

/-!
# The settings of a session

`Conf` of `puttysrc/utils/conf.c`: the options of `conf.h`, each with the type of
its subkeys and of its values, and a store from options to values.  The
assertions of the `conf_set_*` functions are an outcome: a setter that is called
on an option of another type gives `none`.

`load_open_settings` is a parameter, with what the development uses of it as
fields; `Produced` are the stores that it and the setters build.
-/

namespace Qutty
namespace Config

open Lib Lib.ByteOrder

section Options

/-- `subkey_type` of `ConfKeyInfo`. -/
inductive SubkeyType where
  | none
  | int
  | str
deriving DecidableEq, Repr

/-- `value_type` of `ConfKeyInfo`. -/
inductive ValueType where
  | bool
  | int
  | str
  | utf8
  | strAmbi
  | filename
  | font
deriving DecidableEq, Repr

/-- An option of `conf.h`. -/
structure ConfOption where
  name : String
  subkey : SubkeyType
  value : ValueType
deriving DecidableEq, Repr

/-- The bytes of the name of an option. -/
def ConfOption.bytes (k : ConfOption) : List UInt8 := k.name.toByteArray.data.toList

/-- The options, in the order of `conf.h`. -/
def confOptions : List ConfOption :=
  [⟨"host", .none, .str⟩, ⟨"port", .none, .int⟩, ⟨"protocol", .none, .int⟩,
   ⟨"addressfamily", .none, .int⟩, ⟨"close_on_exit", .none, .int⟩,
   ⟨"warn_on_close", .none, .bool⟩, ⟨"ping_interval", .none, .int⟩, ⟨"tcp_nodelay", .none, .bool⟩,
   ⟨"tcp_keepalives", .none, .bool⟩, ⟨"loghost", .none, .str⟩,
   ⟨"proxy_exclude_list", .none, .str⟩, ⟨"proxy_dns", .none, .int⟩,
   ⟨"even_proxy_localhost", .none, .bool⟩, ⟨"proxy_type", .none, .int⟩,
   ⟨"proxy_host", .none, .str⟩, ⟨"proxy_port", .none, .int⟩, ⟨"proxy_username", .none, .str⟩,
   ⟨"proxy_password", .none, .str⟩, ⟨"proxy_telnet_command", .none, .str⟩,
   ⟨"proxy_log_to_term", .none, .int⟩, ⟨"remote_cmd", .none, .strAmbi⟩,
   ⟨"remote_cmd2", .none, .strAmbi⟩, ⟨"nopty", .none, .bool⟩, ⟨"compression", .none, .bool⟩,
   ⟨"ssh_kexlist", .int, .int⟩, ⟨"ssh_hklist", .int, .int⟩,
   ⟨"ssh_prefer_known_hostkeys", .none, .bool⟩, ⟨"ssh_rekey_time", .none, .int⟩,
   ⟨"ssh_rekey_data", .none, .str⟩, ⟨"tryagent", .none, .bool⟩, ⟨"agentfwd", .none, .bool⟩,
   ⟨"change_username", .none, .bool⟩, ⟨"ssh_cipherlist", .int, .int⟩,
   ⟨"keyfile", .none, .filename⟩, ⟨"detached_cert", .none, .filename⟩,
   ⟨"auth_plugin", .none, .str⟩, ⟨"sshprot", .none, .int⟩, ⟨"ssh_simple", .none, .bool⟩,
   ⟨"ssh_connection_sharing", .none, .bool⟩, ⟨"ssh_connection_sharing_upstream", .none, .bool⟩,
   ⟨"ssh_connection_sharing_downstream", .none, .bool⟩, ⟨"ssh_manual_hostkeys", .str, .str⟩,
   ⟨"ssh2_des_cbc", .none, .bool⟩, ⟨"ssh_no_userauth", .none, .bool⟩,
   ⟨"ssh_no_trivial_userauth", .none, .bool⟩, ⟨"ssh_show_banner", .none, .bool⟩,
   ⟨"try_tis_auth", .none, .bool⟩, ⟨"try_ki_auth", .none, .bool⟩,
   ⟨"try_gssapi_auth", .none, .bool⟩, ⟨"try_gssapi_kex", .none, .bool⟩,
   ⟨"gssapifwd", .none, .bool⟩, ⟨"gssapirekey", .none, .int⟩, ⟨"ssh_gsslist", .int, .int⟩,
   ⟨"ssh_gss_custom", .none, .filename⟩, ⟨"ssh_subsys", .none, .bool⟩,
   ⟨"ssh_subsys2", .none, .bool⟩, ⟨"ssh_no_shell", .none, .bool⟩, ⟨"ssh_nc_host", .none, .str⟩,
   ⟨"ssh_nc_port", .none, .int⟩, ⟨"termtype", .none, .str⟩, ⟨"termspeed", .none, .str⟩,
   ⟨"ttymodes", .str, .str⟩, ⟨"environmt", .str, .str⟩, ⟨"username", .none, .strAmbi⟩,
   ⟨"username_from_env", .none, .bool⟩, ⟨"localusername", .none, .str⟩,
   ⟨"rfc_environ", .none, .bool⟩, ⟨"passive_telnet", .none, .bool⟩, ⟨"serline", .none, .str⟩,
   ⟨"serspeed", .none, .int⟩, ⟨"serdatabits", .none, .int⟩, ⟨"serstopbits", .none, .int⟩,
   ⟨"serparity", .none, .int⟩, ⟨"serflow", .none, .int⟩, ⟨"supdup_location", .none, .str⟩,
   ⟨"supdup_ascii_set", .none, .int⟩, ⟨"supdup_more", .none, .bool⟩,
   ⟨"supdup_scroll", .none, .bool⟩, ⟨"bksp_is_delete", .none, .bool⟩,
   ⟨"rxvt_homeend", .none, .bool⟩, ⟨"funky_type", .none, .int⟩, ⟨"sharrow_type", .none, .int⟩,
   ⟨"no_applic_c", .none, .bool⟩, ⟨"no_applic_k", .none, .bool⟩, ⟨"no_mouse_rep", .none, .bool⟩,
   ⟨"no_remote_resize", .none, .bool⟩, ⟨"no_alt_screen", .none, .bool⟩,
   ⟨"no_remote_wintitle", .none, .bool⟩, ⟨"no_remote_clearscroll", .none, .bool⟩,
   ⟨"no_dbackspace", .none, .bool⟩, ⟨"no_remote_charset", .none, .bool⟩,
   ⟨"remote_qtitle_action", .none, .int⟩, ⟨"app_cursor", .none, .bool⟩,
   ⟨"app_keypad", .none, .bool⟩, ⟨"nethack_keypad", .none, .bool⟩,
   ⟨"telnet_keyboard", .none, .bool⟩, ⟨"telnet_newline", .none, .bool⟩, ⟨"alt_f4", .none, .bool⟩,
   ⟨"alt_space", .none, .bool⟩, ⟨"alt_only", .none, .bool⟩, ⟨"localecho", .none, .int⟩,
   ⟨"localedit", .none, .int⟩, ⟨"alwaysontop", .none, .bool⟩,
   ⟨"fullscreenonaltenter", .none, .bool⟩, ⟨"scroll_on_key", .none, .bool⟩,
   ⟨"scroll_on_disp", .none, .bool⟩, ⟨"erase_to_scrollback", .none, .bool⟩,
   ⟨"compose_key", .none, .bool⟩, ⟨"ctrlaltkeys", .none, .bool⟩,
   ⟨"osx_option_meta", .none, .bool⟩, ⟨"osx_command_meta", .none, .bool⟩,
   ⟨"wintitle", .none, .str⟩, ⟨"savelines", .none, .int⟩, ⟨"dec_om", .none, .bool⟩,
   ⟨"wrap_mode", .none, .bool⟩, ⟨"lfhascr", .none, .bool⟩, ⟨"cursor_type", .none, .int⟩,
   ⟨"blink_cur", .none, .bool⟩, ⟨"beep", .none, .int⟩, ⟨"beep_ind", .none, .int⟩,
   ⟨"bellovl", .none, .bool⟩, ⟨"bellovl_n", .none, .int⟩, ⟨"bellovl_t", .none, .int⟩,
   ⟨"bellovl_s", .none, .int⟩, ⟨"bell_wavefile", .none, .filename⟩, ⟨"scrollbar", .none, .bool⟩,
   ⟨"scrollbar_in_fullscreen", .none, .bool⟩, ⟨"resize_action", .none, .int⟩,
   ⟨"bce", .none, .bool⟩, ⟨"blinktext", .none, .bool⟩, ⟨"win_name_always", .none, .bool⟩,
   ⟨"width", .none, .int⟩, ⟨"height", .none, .int⟩, ⟨"font", .none, .font⟩,
   ⟨"font_quality", .none, .int⟩, ⟨"logfilename", .none, .filename⟩, ⟨"logtype", .none, .int⟩,
   ⟨"logxfovr", .none, .int⟩, ⟨"logflush", .none, .bool⟩, ⟨"logheader", .none, .bool⟩,
   ⟨"logomitpass", .none, .bool⟩, ⟨"logomitdata", .none, .bool⟩, ⟨"hide_mouseptr", .none, .bool⟩,
   ⟨"sunken_edge", .none, .bool⟩, ⟨"window_border", .none, .int⟩, ⟨"answerback", .none, .str⟩,
   ⟨"printer", .none, .str⟩, ⟨"no_arabicshaping", .none, .bool⟩, ⟨"no_bidi", .none, .bool⟩,
   ⟨"no_bracketed_paste", .none, .bool⟩, ⟨"ansi_colour", .none, .bool⟩,
   ⟨"xterm_256_colour", .none, .bool⟩, ⟨"true_colour", .none, .bool⟩,
   ⟨"system_colour", .none, .bool⟩, ⟨"try_palette", .none, .bool⟩, ⟨"bold_style", .none, .int⟩,
   ⟨"colours", .int, .int⟩, ⟨"mouse_is_xterm", .none, .int⟩, ⟨"rect_select", .none, .bool⟩,
   ⟨"paste_controls", .none, .bool⟩, ⟨"rawcnp", .none, .bool⟩, ⟨"utf8linedraw", .none, .bool⟩,
   ⟨"rtf_paste", .none, .bool⟩, ⟨"mouse_override", .none, .bool⟩, ⟨"wordness", .int, .int⟩,
   ⟨"mouseautocopy", .none, .bool⟩, ⟨"mousepaste", .none, .int⟩, ⟨"ctrlshiftins", .none, .int⟩,
   ⟨"ctrlshiftcv", .none, .int⟩, ⟨"mousepaste_custom", .none, .str⟩,
   ⟨"ctrlshiftins_custom", .none, .str⟩, ⟨"ctrlshiftcv_custom", .none, .str⟩,
   ⟨"vtmode", .none, .int⟩, ⟨"line_codepage", .none, .str⟩, ⟨"cjk_ambig_wide", .none, .bool⟩,
   ⟨"utf8_override", .none, .bool⟩, ⟨"xlat_capslockcyr", .none, .bool⟩,
   ⟨"x11_forward", .none, .bool⟩, ⟨"x11_display", .none, .str⟩, ⟨"x11_auth", .none, .int⟩,
   ⟨"xauthfile", .none, .filename⟩, ⟨"lport_acceptall", .none, .bool⟩,
   ⟨"rport_acceptall", .none, .bool⟩, ⟨"portfwd", .str, .str⟩, ⟨"sshbug_ignore1", .none, .int⟩,
   ⟨"sshbug_plainpw1", .none, .int⟩, ⟨"sshbug_rsa1", .none, .int⟩,
   ⟨"sshbug_ignore2", .none, .int⟩, ⟨"sshbug_derivekey2", .none, .int⟩,
   ⟨"sshbug_rsapad2", .none, .int⟩, ⟨"sshbug_pksessid2", .none, .int⟩,
   ⟨"sshbug_rekey2", .none, .int⟩, ⟨"sshbug_maxpkt2", .none, .int⟩,
   ⟨"sshbug_oldgex2", .none, .int⟩, ⟨"sshbug_winadj", .none, .int⟩,
   ⟨"sshbug_chanreq", .none, .int⟩, ⟨"sshbug_dropstart", .none, .int⟩,
   ⟨"sshbug_filter_kexinit", .none, .int⟩, ⟨"sshbug_rsa_sha2_cert_userauth", .none, .int⟩,
   ⟨"sshbug_hmac2", .none, .int⟩, ⟨"stamp_utmp", .none, .bool⟩, ⟨"login_shell", .none, .bool⟩,
   ⟨"scrollbar_on_left", .none, .bool⟩, ⟨"shadowbold", .none, .bool⟩, ⟨"boldfont", .none, .font⟩,
   ⟨"widefont", .none, .font⟩, ⟨"wideboldfont", .none, .font⟩, ⟨"shadowboldoffset", .none, .int⟩,
   ⟨"crhaslf", .none, .bool⟩, ⟨"winclass", .none, .str⟩]

/-- `keyFor(keyName)`: none for -1. -/
def keyFor (keyName : CStr) : Option ConfOption :=
  confOptions.find? (fun k => k.bytes = keyName.val)

/-- `CONF_colours`. -/
def confColours : ConfOption := ⟨"colours", .int, .int⟩

/-- `optionFor(key).count`, where the build has GSSAPI or not. -/
def optionFor (gssapi : Bool) (k : ConfOption) : Int :=
  if k = confColours then 22
  else if k = ⟨"wordness", .int, .int⟩ then 256
  else if k = ⟨"ssh_kexlist", .int, .int⟩ then 13
  else if k = ⟨"ssh_cipherlist", .int, .int⟩ then 8
  else if k = ⟨"ssh_hklist", .int, .int⟩ then 6
  else if gssapi ∧ k = ⟨"ssh_gsslist", .int, .int⟩ then 3
  else -1

end Options

section OptionNames

/-- The name of an option as a number, for the comparison of names. -/
def ConfOption.code (k : ConfOption) : Nat := k.bytes.foldl (fun n b => 256 * n + b.toNat) 0

/-- A list of numbers without repetitions. -/
def distinct : List Nat → Bool
  | [] => true
  | n :: ns => ns.all (fun m => !Nat.beq n m) && distinct ns

theorem nodup_of_distinct {ns : List Nat} (h : distinct ns = true) : ns.Nodup := by
  induction ns with
  | nil => exact List.nodup_nil
  | cons n ns ih =>
      rw [distinct, Bool.and_eq_true, List.all_eq_true] at h
      refine List.nodup_cons.mpr ⟨fun hn => ?_, ih h.2⟩
      have hne := h.1 n hn
      simp at hne

/-- The names of the options are different. -/
theorem confOptions_bytes_nodup : (confOptions.map ConfOption.bytes).Nodup := by
  have hcode : (confOptions.map ConfOption.code).Nodup :=
    nodup_of_distinct (by decide +kernel)
  have hmap : confOptions.map ConfOption.code =
      (confOptions.map ConfOption.bytes).map (fun bs => bs.foldl (fun n b => 256 * n + b.toNat) 0) := by
    rw [List.map_map]
    rfl
  rw [hmap] at hcode
  exact List.Nodup.of_map _ hcode

theorem confOptions_nodup : confOptions.Nodup := List.Nodup.of_map _ confOptions_bytes_nodup

/-- The names of the options are plain ASCII. -/
theorem confOptions_plain : ∀ k ∈ confOptions, ∀ b ∈ k.bytes, PlainByte b := by
  have h : confOptions.all (fun k => k.bytes.all (fun b => decide (PlainByte b))) = true := by
    decide +kernel
  intro k hk b hb
  have hall := List.all_eq_true.mp (List.all_eq_true.mp h k hk) b hb
  exact of_decide_eq_true hall

/-- An option is found under its name. -/
theorem keyFor_bytes {k : ConfOption} (hk : k ∈ confOptions) {name : CStr}
    (hname : name.val = k.bytes) : keyFor name = some k := by
  rw [keyFor, List.find?_eq_some_iff_append]
  obtain ⟨before, after, hsplit⟩ := List.append_of_mem hk
  refine ⟨by simp [hname], before, after, hsplit, fun j hj => ?_⟩
  have hnodup := confOptions_bytes_nodup
  rw [hsplit, List.map_append, List.map_cons, List.nodup_append] at hnodup
  have hne := hnodup.2.2 j.bytes (List.mem_map_of_mem hj) k.bytes (by simp)
  simpa [hname] using hne

theorem mem_of_keyFor {name : CStr} {k : ConfOption} (h : keyFor name = some k) :
    k ∈ confOptions := List.mem_of_find?_eq_some h

/-- The combinations of types that occur. -/
theorem confOptions_types : ∀ k ∈ confOptions,
    k.subkey = .none ∧ k.value ≠ .utf8 ∨ k.subkey = .int ∧ k.value = .int ∨
      k.subkey = .str ∧ k.value = .str := by
  decide +kernel

end OptionNames

section Values

/-- `int`. -/
abbrev CInt := { i : Int // -2 ^ 31 ≤ i ∧ i < 2 ^ 31 }

/-- `FontSpec`, with the name in an array of 64. -/
structure FontSpec where
  name : CStr
  isbold : Bool
  height : CInt
  charset : CInt
  name_fits : name.val.length < 64
deriving DecidableEq

/-- `Filename`: the wide path. -/
abbrev Filename := Text

/-- `struct value`. -/
inductive Value where
  | bool (boolval : Bool)
  | int (intval : CInt)
  | string (str : CStr) (utf8 : Bool)
  | filename (fileval : Filename)
  | font (fontval : FontSpec)
deriving DecidableEq

/-- The values of an option of a type, as the setters assert. -/
def Value.Fits : Value → ValueType → Prop
  | .bool _, t => t = .bool
  | .int _, t => t = .int
  | .string _ utf8, t => t = .strAmbi ∨ (t = .str ∧ utf8 = false) ∨ (t = .utf8 ∧ utf8 = true)
  | .filename _, t => t = .filename
  | .font _, t => t = .font

instance (v : Value) (t : ValueType) : Decidable (v.Fits t) :=
  match v with
  | .bool _ => inferInstanceAs (Decidable (t = .bool))
  | .int _ => inferInstanceAs (Decidable (t = .int))
  | .string _ utf8 =>
      inferInstanceAs
        (Decidable (t = .strAmbi ∨ (t = .str ∧ utf8 = false) ∨ (t = .utf8 ∧ utf8 = true)))
  | .filename _ => inferInstanceAs (Decidable (t = .filename))
  | .font _ => inferInstanceAs (Decidable (t = .font))

end Values

/-- `Conf`: the entries of the tree, by the type of the subkeys of their option. -/
structure Conf where
  scalar : ConfOption → Option Value
  list : ConfOption → Int → Option CInt
  dict : ConfOption → OrderedMap CStr CStr
  scalar_fits : ∀ k v, scalar k = some v → k.subkey = .none ∧ v.Fits k.value

/-- `conf_new()`. -/
def Conf.new : Conf :=
  ⟨fun _ => none, fun _ _ => none, fun _ => OrderedMap.empty, by simp⟩

end Config
end Qutty
