import Qutty.Config.Setters

/-!
# The controls of the settings dialog

The widgets of `GuiSettingsWindow.ui` that `UI_MAPPING` in `GuiSettingsWindow.cpp` has an
entry for, each with its entry.  Every key is an option of `conf.h`, with its types
(`uiMapping_keys`).

Radio buttons exclude each other in their button group, or below their parent if they have
no group.  Three of them are disabled in the form.
-/

namespace Qutty
namespace Dialog

open Config

section Entries

/-- `UI`. -/
inductive UIFlag where
  | optional
  | currentText
  | userRole0
  | twoColumns
  | col0IsEditable
  | col0IsSorted
  | col1IsEditable
  | col1IsFormatted
  | dontWrite
deriving DecidableEq

/-- `DataItem`. -/
structure DataItem where
  text : String
  data : CInt
deriving DecidableEq

/-- `KVValue`; the only formatter is `formatTTYMode`. -/
inductive KVValue where
  | none
  | bool (value : Bool)
  | int (value : CInt)
  | dataList (items : List DataItem)
  | formatTTYMode
deriving DecidableEq

/-- `Type`. -/
inductive KeyType where
  | none
  | str
  | strAmbi
  | utf8
  | int
  | bool
  | filename
  | font
  | intInt
  | strStr
deriving DecidableEq

/-- `KEY_TO_TYPE`. -/
def keyToType (key : ConfOption) : KeyType :=
  match key.subkey, key.value with
  | .none, .str => .str
  | .none, .strAmbi => .strAmbi
  | .none, .utf8 => .utf8
  | .none, .int => .int
  | .none, .bool => .bool
  | .none, .filename => .filename
  | .none, .font => .font
  | .int, .int => .intInt
  | .str, .str => .strStr
  | _, _ => .none

/-- `KeyValue`. -/
structure KeyValue where
  key : ConfOption
  value : KVValue
  options : List UIFlag
deriving DecidableEq

/-- The type of a `KeyValue`. -/
def KeyValue.type (kv : KeyValue) : KeyType := keyToType kv.key

/-- `isString`. -/
def KeyValue.isString (kv : KeyValue) : Bool :=
  kv.type = .str ∨ kv.type = .strAmbi ∨ kv.type = .utf8

/-- The classes of the widgets.  A radio button is in a group, and enabled or not. -/
inductive WidgetClass where
  | checkBox
  | radioButton (group : String) (enabled : Bool)
  | lineEdit
  | comboBox
  | listWidget
  | tableWidget
deriving DecidableEq

/-- A widget of the form with its entry. -/
structure Widget where
  objectName : String
  cls : WidgetClass
  kv : KeyValue
deriving DecidableEq

end Entries

section Shapes

/-- The keys of `conf.h`, by their types. -/
def boolKey (name : String) : ConfOption := ⟨name, .none, .bool⟩
def intKey (name : String) : ConfOption := ⟨name, .none, .int⟩
def strKey (name : String) : ConfOption := ⟨name, .none, .str⟩
def strAmbiKey (name : String) : ConfOption := ⟨name, .none, .strAmbi⟩
def filenameKey (name : String) : ConfOption := ⟨name, .none, .filename⟩
def listKey (name : String) : ConfOption := ⟨name, .int, .int⟩
def dictKey (name : String) : ConfOption := ⟨name, .str, .str⟩

/-- A number as an `int`. -/
def toCInt (i : Int) : CInt := ⟨(i + 2 ^ 31) % 2 ^ 32 - 2 ^ 31, by omega⟩

/-- A number as the value of an entry. -/
def intValue (i : Int) : KVValue := .int (toCInt i)

/-- Widgets whose entries have no options. -/
def checkBox (name : String) (key : ConfOption) : Widget := ⟨name, .checkBox, ⟨key, .none, []⟩⟩
def lineEdit (name : String) (key : ConfOption) : Widget := ⟨name, .lineEdit, ⟨key, .none, []⟩⟩
def comboBox (name : String) (key : ConfOption) : Widget := ⟨name, .comboBox, ⟨key, .none, []⟩⟩

/-- A radio button for a value of a boolean or of a number. -/
def boolButton (name group key : String) (value : Bool) : Widget :=
  ⟨name, .radioButton group true, ⟨boolKey key, .bool value, []⟩⟩
def intButton (name group key : String) (value : Int) : Widget :=
  ⟨name, .radioButton group true, ⟨intKey key, intValue value, []⟩⟩

/-- A widget that is disabled. -/
def Widget.disabled (w : Widget) : Widget :=
  match w.cls with
  | .radioButton group _ => { w with cls := .radioButton group false }
  | _ => w

/-- A list in the order of preference. -/
def priorityList (name key : String) (items : List DataItem) : Widget :=
  ⟨name, .listWidget, ⟨listKey key, .dataList items, [.userRole0]⟩⟩

end Shapes

section Lists

/-- An item with a number. -/
def dataItem (text : String) (data : Int) : DataItem := ⟨text, toCInt data⟩

/-- `cipherDataList`. -/
def cipherDataList : List DataItem :=
  [dataItem "ChaCha20 (SSH-2 only)" 6, dataItem "AES-GCM (SSH-2 only)" 7, dataItem "3DES" 1,
   dataItem "Blowfish" 2, dataItem "DES" 4, dataItem "AES (SSH-2 only)" 3,
   dataItem "Arcfour (SSH-2 only)" 5, dataItem "\x2d\x2d warn below here \x2d\x2d" 0]

/-- `kexDataList`. -/
def kexDataList : List DataItem :=
  [dataItem "Diffie-Hellman group 1 (1024-bit)" 1, dataItem "Diffie-Hellman group 14 (2048-bit)" 2,
   dataItem "Diffie-Hellman group 15 (3072-bit)" 3, dataItem "Diffie-Hellman group 16 (4096-bit)" 4,
   dataItem "Diffie-Hellman group 17 (6144-bit)" 5, dataItem "Diffie-Hellman group 18 (8192-bit)" 6,
   dataItem "Diffie-Hellman group exchange" 7, dataItem "RSA-based key exchange" 8,
   dataItem "ECDH key exchange" 9, dataItem "NTRU Prime / Curve25519 hybrid kex" 10,
   dataItem "ML-KEM / Curve25519 hybrid kex" 11, dataItem "ML-KEM / NIST ECDH hybrid kex" 12,
   dataItem "\x2d\x2d warn below here \x2d\x2d" 0]

/-- `hkDataList`. -/
def hkDataList : List DataItem :=
  [dataItem "Ed25519" 4, dataItem "Ed448" 5, dataItem "ECDSA" 3, dataItem "DSA" 2,
   dataItem "RSA" 1, dataItem "\x2d\x2d warn below here \x2d\x2d" 0]

/-- `gssDataList`. -/
def gssDataList : List DataItem :=
  [dataItem "MIT Kerberos GSSAPI64.DLL" 0, dataItem "Microsoft SSPI SECUR32.DLL" 1,
   dataItem "User-specified GSSAPI DLL" 2]

/-- `coloursDataList`. -/
def coloursDataList : List DataItem :=
  ["Default Foreground", "Default Bold Foreground", "Default Background", "Default Bold Background",
   "Cursor Text", "Cursor Colour", "ANSI Black", "ANSI Black Bold", "ANSI Red", "ANSI Red Bold",
   "ANSI Green", "ANSI Green Bold", "ANSI Yellow", "ANSI Yellow Bold", "ANSI Blue",
   "ANSI Blue Bold", "ANSI Magenta", "ANSI Magenta Bold", "ANSI Cyan", "ANSI Cyan Bold",
   "ANSI White", "ANSI White Bold"].map (fun text => dataItem text 0)

end Lists

section Mapping

/-- `UI_MAPPING`, by the pages of the form. -/
def uiMapping : List Widget :=
  [ -- Session
   (intButton "rb_contype_raw" "gp_contype" "protocol" 0).disabled,  -- PROT_RAW
   intButton "rb_contype_telnet" "gp_contype" "protocol" 1,  -- PROT_TELNET
   (intButton "rb_contype_rlogin" "gp_contype" "protocol" 2).disabled,  -- PROT_RLOGIN
   intButton "rb_contype_ssh" "gp_contype" "protocol" 3,  -- PROT_SSH
   (intButton "rb_contype_serial" "gp_contype" "protocol" 5).disabled,  -- PROT_SERIAL
   lineEdit "le_hostname" (strKey "host"),
   lineEdit "le_port" (intKey "port"),
   lineEdit "le_line" (strKey "serline"),
   lineEdit "le_speed" (intKey "serspeed"),
   intButton "rb_exit_always" "gp_exit_close" "close_on_exit" 0,  -- FORCE_ON
   intButton "rb_exit_never" "gp_exit_close" "close_on_exit" 2,  -- AUTO
   intButton "rb_exit_clean" "gp_exit_close" "close_on_exit" 1,  -- FORCE_OFF
   -- Session Logging
   intButton "rb_sessionlog_printout" "gp_seslog" "logtype" 1,  -- LGTYP_ASCII
   intButton "rb_sessionlog_overwrite" "gp_logfile" "logxfovr" 1,  -- LGXF_OVR
   checkBox "chb_sessionlog_flush" (boolKey "logflush"),
   intButton "rb_sessionlog_none" "gp_seslog" "logtype" 0,  -- LGTYP_NONE
   intButton "rb_sessionlog_sshpacket" "gp_seslog" "logtype" 3,  -- LGTYP_PACKETS
   lineEdit "le_sessionlog_filename" (filenameKey "logfilename"),
   intButton "rb_sessionlog_rawdata" "gp_seslog" "logtype" 4,  -- LGTYP_SSHRAW
   intButton "rb_sessionlog_alloutput" "gp_seslog" "logtype" 2,  -- LGTYP_DEBUG
   intButton "rb_sessionlog_append" "gp_logfile" "logxfovr" 0,  -- LGXF_APN
   intButton "rb_sessionlog_askuser" "gp_logfile" "logxfovr" (-1),  -- LGXF_ASK
   checkBox "chb_logheader" (boolKey "logheader"),
   checkBox "chb_sessionlog_omitdata" (boolKey "logomitdata"),
   checkBox "chb_sessionlog_omitpasswd" (boolKey "logomitpass"),
   -- Terminal Emulation
   checkBox "chb_terminaloption_blinktext" (boolKey "blinktext"),
   checkBox "chb_terminaloption_bgcolor" (boolKey "bce"),
   checkBox "chb_terminaloption_cr" (boolKey "lfhascr"),
   lineEdit "le_termopt_ansback" (strKey "answerback"),
   checkBox "chb_terminaloption_autowrap" (boolKey "wrap_mode"),
   checkBox "chb_terminaloption_decorigin" (boolKey "dec_om"),
   checkBox "chb_terminaloption_lf" (boolKey "crhaslf"),
   intButton "rb_termopt_editon" "gp_termopt_edit" "localedit" 0,  -- FORCE_ON
   intButton "rb_termopt_echoon" "gp_termopt_echo" "localecho" 0,  -- FORCE_ON
   intButton "rb_termopt_editauto" "gp_termopt_edit" "localedit" 2,  -- AUTO
   intButton "rb_termopt_echoauto" "gp_termopt_echo" "localecho" 2,  -- AUTO
   intButton "rb_termopt_echooff" "gp_termopt_echo" "localecho" 1,  -- FORCE_OFF
   intButton "rb_termopt_editoff" "gp_termopt_edit" "localedit" 1,  -- FORCE_OFF
   comboBox "cb_termopt_printeroutput" (strKey "printer"),
   -- Keyboard
   intButton "rb_fnkeys_xtermr6" "gp_fnkeys" "funky_type" 2,  -- FUNKY_XTERM
   intButton "rb_fnkeys_linux" "gp_fnkeys" "funky_type" 1,  -- FUNKY_LINUX
   intButton "rb_fnkeys_esc" "gp_fnkeys" "funky_type" 0,  -- FUNKY_TILDE
   intButton "rb_fnkeys_vt400" "gp_fnkeys" "funky_type" 3,  -- FUNKY_VT400
   intButton "rb_fnkeys_vt100" "gp_fnkeys" "funky_type" 4,  -- FUNKY_VT100P
   intButton "rb_fnkeys_sco" "gp_fnkeys" "funky_type" 5,  -- FUNKY_SCO
   boolButton "rb_backspacekey_ctrlh" "buttonGroup" "bksp_is_delete" true,
   boolButton "rb_backspace_ctrl127" "buttonGroup" "bksp_is_delete" false,
   boolButton "rb_homeendkeys_std" "buttonGroup_3" "rxvt_homeend" false,
   boolButton "rb_homeendkeys_rxvt" "buttonGroup_3" "rxvt_homeend" true,
   intButton "rb_sharrow_application" "groupBox_9" "sharrow_type" 0,  -- SHARROW_APPLICATION
   intButton "rb_sharrow_bitmap" "groupBox_9" "sharrow_type" 1,  -- SHARROW_BITMAP
   boolButton "rb_inicursorkeys_app" "buttonGroup_4" "app_cursor" true,
   boolButton "rb_ininumkeys_nethack" "buttonGroup_13" "nethack_keypad" true,
   boolButton "rb_inicursorkeys_normal" "buttonGroup_4" "app_cursor" false,
   boolButton "rb_ininumkeys_normal" "buttonGroup_13" "app_keypad" false,
   boolButton "rb_ininumkeys_app" "buttonGroup_13" "app_keypad" true,
   ⟨"chb_osx_command_meta", .checkBox, ⟨boolKey "osx_command_meta", .none, [.optional]⟩⟩,
   ⟨"chb_osx_option_meta", .checkBox, ⟨boolKey "osx_option_meta", .none, [.optional]⟩⟩,
   checkBox "chb_ctrl_alt" (boolKey "ctrlaltkeys"),
   checkBox "chb_altgrkey" (boolKey "compose_key"),
   -- Bell
   intButton "rb_belltaskbar_disable" "buttonGroup_11" "beep_ind" 0,  -- B_IND_DISABLED
   intButton "rb_belltaskbar_flash" "buttonGroup_11" "beep_ind" 1,  -- B_IND_FLASH
   intButton "rb_belltaskbar_steady" "buttonGroup_11" "beep_ind" 2,  -- B_IND_STEADY
   intButton "rb_bellstyle_playcustomsound" "buttonGroup_12" "beep" 3,  -- BELL_WAVEFILE
   intButton "rb_bellaction_visual" "buttonGroup_12" "beep" 2,  -- BELL_VISUAL
   intButton "rb_bellaction_none" "buttonGroup_12" "beep" 0,  -- BELL_DISABLED
   intButton "rb_bellaction_alertsound" "buttonGroup_12" "beep" 1,  -- BELL_DEFAULT
   intButton "rb_bellaction_beep" "buttonGroup_12" "beep" 4,  -- BELL_PCSPEAKER
   lineEdit "le_bell_wavefile" (filenameKey "bell_wavefile"),
   lineEdit "le_bellcontrol_silencereq_secs" (intKey "bellovl_s"),
   lineEdit "le_bellcontrol_overuseno" (intKey "bellovl_n"),
   lineEdit "le_bellcontrol_overusesec" (intKey "bellovl_t"),
   checkBox "chb_bellcontrol_whenoverused" (boolKey "bellovl"),
   -- Advanced Terminal Features
   checkBox "chb_no_remote_charset" (boolKey "no_remote_charset"),
   -- TITLE_EMPTY
   intButton "rb_featqtitle_empstring" "gp_remote_qtitle_action" "remote_qtitle_action" 1,
   checkBox "chb_no_applic_c" (boolKey "no_applic_c"),
   checkBox "chb_no_alt_screen" (boolKey "no_alt_screen"),
   checkBox "chb_no_remote_wintitle" (boolKey "no_remote_wintitle"),
   checkBox "chb_no_mouse_rep" (boolKey "no_mouse_rep"),
   checkBox "chb_no_dbackspace" (boolKey "no_dbackspace"),
   checkBox "chb_no_applic_k" (boolKey "no_applic_k"),
   checkBox "chb_no_bidi" (boolKey "no_bidi"),
   checkBox "chb_no_arabic" (boolKey "no_arabicshaping"),
   intButton "rb_featqtitle_none" "gp_remote_qtitle_action" "remote_qtitle_action" 0,  -- TITLE_NONE
   checkBox "chb_no_remote_resize" (boolKey "no_remote_resize"),
   -- TITLE_REAL
   intButton "rb_featqtitle_wndtitle" "gp_remote_qtitle_action" "remote_qtitle_action" 2,
   checkBox "chb_no_remote_clearscroll" (boolKey "no_remote_clearscroll"),
   -- Window
   intButton "rb_wndresz_rowcolno" "gp_resize_action" "resize_action" 0,  -- RESIZE_TERM
   intButton "rb_wndresz_fontsize" "gp_resize_action" "resize_action" 2,  -- RESIZE_FONT
   intButton "rb_wndresz_onlywhenmax" "gp_resize_action" "resize_action" 3,  -- RESIZE_EITHER
   intButton "rb_wndresz_forbid" "gp_resize_action" "resize_action" 1,  -- RESIZE_DISABLED
   lineEdit "le_window_column" (intKey "width"),
   lineEdit "le_window_row" (intKey "height"),
   checkBox "chb_wndscroll_fullscreen" (boolKey "scrollbar_in_fullscreen"),
   checkBox "chb_wndscroll_pusherasedtext" (boolKey "erase_to_scrollback"),
   checkBox "chb_scrollbar_on_left" (boolKey "scrollbar_on_left"),
   checkBox "chb_wndscroll_resetdisply" (boolKey "scroll_on_disp"),
   checkBox "chb_wndscroll_display" (boolKey "scrollbar"),
   lineEdit "le_wndscroll_lines" (intKey "savelines"),
   checkBox "chb_wndscroll_resetkeypress" (boolKey "scroll_on_key"),
   -- Window Appearance
   intButton "rb_curappear_underline" "gp_curappear" "cursor_type" 1,  -- CURSOR_UNDERLINE
   intButton "rb_curappear_vertline" "gp_curappear" "cursor_type" 2,  -- CURSOR_VERTICAL_LINE
   checkBox "chb_curblink" (boolKey "blink_cur"),
   intButton "rb_curappear_block" "gp_curappear" "cursor_type" 0,  -- CURSOR_BLOCK
   intButton "rb_fontappear_nonantialiase" "gp_fontquality" "font_quality" 2,  -- FQ_NONANTIALIASED
   intButton "rb_fontappear_clear" "gp_fontquality" "font_quality" 3,  -- FQ_CLEARTYPE
   intButton "rb_fontappear_default" "gp_fontquality" "font_quality" 0,  -- FQ_DEFAULT
   intButton "rb_fontappear_antialiase" "gp_fontquality" "font_quality" 1,  -- FQ_ANTIALIASED
   checkBox "chb_hide_mouseptr" (boolKey "hide_mouseptr"),
   lineEdit "le_borderappear_gap" (intKey "window_border"),
   checkBox "chb_sunken_edge" (boolKey "sunken_edge"),
   -- Window Behaviour
   lineEdit "le_wintitle" (strKey "wintitle"),
   checkBox "chb_separate_titles" (boolKey "win_name_always"),
   checkBox "chb_behaviour_altf4" (boolKey "alt_f4"),
   checkBox "chb_behaviour_warn" (boolKey "warn_on_close"),
   checkBox "chb_behaviour_alt_space" (boolKey "alt_space"),
   checkBox "chb_behaviour_altalone" (boolKey "alt_only"),
   checkBox "chb_behaviour_alt_enter" (boolKey "fullscreenonaltenter"),
   checkBox "chb_behaviour_top" (boolKey "alwaysontop"),
   -- Character Set Translation
   checkBox "chb_utf8_override" (boolKey "utf8_override"),
   ⟨"cb_codepage", .comboBox, ⟨strKey "line_codepage", .none, [.currentText]⟩⟩,
   checkBox "chb_cjk_ambig_wide" (boolKey "cjk_ambig_wide"),
   checkBox "chb_xlat_capslockcyr" (boolKey "xlat_capslockcyr"),
   intButton "rb_translation_poorman" "groupBox_25" "vtmode" 3,  -- VT_POORMAN
   intButton "rb_translation_ansi_oem" "groupBox_25" "vtmode" 1,  -- VT_OEMANSI
   intButton "rb_translation_xwindows" "groupBox_25" "vtmode" 0,  -- VT_XWINDOWS
   checkBox "chb_translation_copy_paste" (boolKey "rawcnp"),
   intButton "rb_translation_oem" "groupBox_25" "vtmode" 2,  -- VT_OEMONLY
   intButton "rb_translation_useunicode" "groupBox_25" "vtmode" 4,  -- VT_UNICODE
   checkBox "chb_utf8linedraw" (boolKey "utf8linedraw"),
   -- Selection
   intButton "rb_cpmouseaction_compromise" "buttonGroup_6" "mouse_is_xterm" 0,  -- MOUSE_COMPROMISE
   intButton "rb_cpmouseaction_windows" "buttonGroup_6" "mouse_is_xterm" 2,  -- MOUSE_WINDOWS
   checkBox "chb_cpmouseaction_shift" (boolKey "mouse_override"),
   ⟨"rb_cpmouseaction_defaultrect", .radioButton "buttonGroup_9" true,
     ⟨boolKey "rect_select", intValue 1, []⟩⟩,
   intButton "rb_cpmouseaction_xterm" "buttonGroup_6" "mouse_is_xterm" 1,  -- MOUSE_XTERM
   ⟨"rb_cpmouseaction_defaultnormal", .radioButton "buttonGroup_9" true,
     ⟨boolKey "rect_select", intValue 0, []⟩⟩,
   comboBox "cb_mousepaste" (intKey "mousepaste"),
   comboBox "cb_ctrlshiftins" (intKey "ctrlshiftins"),
   comboBox "cb_ctrlshiftcv" (intKey "ctrlshiftcv"),
   checkBox "chb_mouseautocopy" (boolKey "mouseautocopy"),
   checkBox "chb_paste_controls" (boolKey "paste_controls"),
   -- Copy
   checkBox "chb_rtf_paste" (boolKey "rtf_paste"),
   -- Colours
   checkBox "chb_colouroption_palette" (boolKey "try_palette"),
   checkBox "chb_coloursoption_ansi" (boolKey "ansi_colour"),
   intButton "rb_bold_both" "gp_bold" "bold_style" 3,  -- BOLD_STYLE_COLOUR | BOLD_STYLE_FONT
   intButton "rb_bold_colour" "gp_bold" "bold_style" 2,  -- BOLD_STYLE_COLOUR
   checkBox "chb_coloursoption_xterm" (boolKey "xterm_256_colour"),
   checkBox "chb_colouroption_usesystem" (boolKey "system_colour"),
   intButton "rb_bold_font" "gp_bold" "bold_style" 1,  -- BOLD_STYLE_FONT
   checkBox "chb_true_colour" (boolKey "true_colour"),
   ⟨"l_colour", .listWidget, ⟨listKey "colours", .dataList coloursDataList, []⟩⟩,
   -- Connection
   lineEdit "le_ping_interval" (intKey "ping_interval"),
   checkBox "chb_tcp_keepalive" (boolKey "tcp_keepalives"),
   checkBox "chb_tcp_nodelay" (boolKey "tcp_nodelay"),
   intButton "rb_connectprotocol_auto" "gp_addressfamily" "addressfamily" 0,  -- ADDRTYPE_UNSPEC
   intButton "rb_connectprotocol_ipv4" "gp_addressfamily" "addressfamily" 1,  -- ADDRTYPE_IPV4
   intButton "rb_connectprotocol_ipv6" "gp_addressfamily" "addressfamily" 2,  -- ADDRTYPE_IPV6
   lineEdit "le_loghost" (strKey "loghost"),
   -- Connection Data
   boolButton "rb_datausername_prompt" "groupBox_35" "username_from_env" false,
   boolButton "rb_datausername_systemsuse" "groupBox_35" "username_from_env" true,
   lineEdit "le_datausername" (strAmbiKey "username"),
   lineEdit "le_termspeed" (strKey "termspeed"),
   lineEdit "le_termtype" (strKey "termtype"),
   ⟨"tb_env_vars", .tableWidget,
     ⟨dictKey "environmt", .none, [.twoColumns, .col0IsEditable, .col1IsEditable]⟩⟩,
   -- Proxy
   lineEdit "le_proxy_exclude_list" (strKey "proxy_exclude_list"),
   checkBox "chb_even_proxy_localhost" (boolKey "even_proxy_localhost"),
   intButton "rb_proxydns_no" "buttonGroup_8" "proxy_dns" 1,  -- FORCE_OFF
   intButton "rb_proxydns_auto" "buttonGroup_8" "proxy_dns" 2,  -- AUTO
   intButton "rd_proxydns_yes" "buttonGroup_8" "proxy_dns" 0,  -- FORCE_ON
   lineEdit "le_proxy_username" (strKey "proxy_username"),
   lineEdit "le_proxy_password" (strKey "proxy_password"),
   lineEdit "le_proxy_telnet_command" (strKey "proxy_telnet_command"),
   intButton "rb_proxy_log_to_term_no" "buttonGroup_2" "proxy_log_to_term" 1,  -- FORCE_OFF
   intButton "rb_proxy_log_to_term_yes" "buttonGroup_2" "proxy_log_to_term" 0,  -- FORCE_ON
   intButton "rb_proxy_log_to_term_until_start" "buttonGroup_2" "proxy_log_to_term" 2,  -- AUTO
   lineEdit "le_proxy_host" (strKey "proxy_host"),
   lineEdit "le_proxy_port" (intKey "proxy_port"),
   -- SSH Connections
   lineEdit "le_remote_cmd" (strAmbiKey "remote_cmd"),
   intButton "rb_sshprotocol_2_only" "gp_sshprotocol" "sshprot" 3,
   intButton "rb_sshprotocol_1_only" "gp_sshprotocol" "sshprot" 0,
   checkBox "chb_compression" (boolKey "compression"),
   checkBox "chb_ssh_no_shell" (boolKey "ssh_no_shell"),
   checkBox "cb_ssh_connection_sharing" (boolKey "ssh_connection_sharing"),
   checkBox "cb_ssh_connection_sharing_downstream" (boolKey "ssh_connection_sharing_downstream"),
   checkBox "cb_ssh_connection_sharing_upstream" (boolKey "ssh_connection_sharing_upstream"),
   -- SSH Key Exchange
   priorityList "l_ssh_kexlist" "ssh_kexlist" kexDataList,
   checkBox "chb_try_gssapi_kex_1" (boolKey "try_gssapi_kex"),
   lineEdit "le_ssh_rekey_data" (strKey "ssh_rekey_data"),
   lineEdit "le_gssapirekey" (intKey "gssapirekey"),
   lineEdit "le_ssh_rekey_time" (intKey "ssh_rekey_time"),
   -- SSH Host Keys
   priorityList "l_ssh_hklist" "ssh_hklist" hkDataList,
   checkBox "chb_ssh_prefer_known_hostkeys" (boolKey "ssh_prefer_known_hostkeys"),
   ⟨"l_ssh_manual_hostkeys", .listWidget, ⟨dictKey "ssh_manual_hostkeys", .none, []⟩⟩,
   -- SSH Cipher
   checkBox "chb_ssh2_des_cbc" (boolKey "ssh2_des_cbc"),
   priorityList "l_ssh_cipherlist" "ssh_cipherlist" cipherDataList,
   -- SSH Authentication
   checkBox "chb_ssh_no_userauth" (boolKey "ssh_no_userauth"),
   checkBox "chb_ssh_show_banner" (boolKey "ssh_show_banner"),
   checkBox "chb_ssh_no_trivial_userauth" (boolKey "ssh_no_trivial_userauth"),
   checkBox "chb_ssh_tryagent" (boolKey "tryagent"),
   checkBox "chb_ssh_try_ki_auth" (boolKey "try_ki_auth"),
   checkBox "chb_ssh_try_tis_auth" (boolKey "try_tis_auth"),
   checkBox "chb_ssh_change_username" (boolKey "change_username"),
   checkBox "chb_ssh_agentfwd" (boolKey "agentfwd"),
   -- SSH Credentials
   lineEdit "le_keyfile" (filenameKey "keyfile"),
   lineEdit "le_detached_cert" (filenameKey "detached_cert"),
   lineEdit "le_auth_plugin" (strKey "auth_plugin"),
   -- GSSAPI Authentication
   priorityList "l_ssh_gsslist" "ssh_gsslist" gssDataList,
   ⟨"le_ssh_gss_custom", .lineEdit, ⟨filenameKey "ssh_gss_custom", .none, [.optional]⟩⟩,
   checkBox "chb_gssapi_authen" (boolKey "try_gssapi_auth"),
   checkBox "chb_gssapi_credential" (boolKey "gssapifwd"),
   checkBox "chb_try_gssapi_kex" (boolKey "try_gssapi_kex"),
   -- Remote Terminal
   checkBox "chb_nopty" (boolKey "nopty"),
   ⟨"tb_ttymodes", .tableWidget,
     ⟨dictKey "ttymodes", .formatTTYMode,
       [.twoColumns, .col0IsSorted, .col1IsFormatted, .dontWrite]⟩⟩,
   -- X11
   intButton "rb_x11remote_mit" "groupBox_52" "x11_auth" 1,  -- X11_MIT
   intButton "rb_x11remote_xdm" "groupBox_52" "x11_auth" 2,  -- X11_XDM
   lineEdit "le_xauthfile" (filenameKey "xauthfile"),
   lineEdit "le_x11_display" (strKey "x11_display"),
   checkBox "chb_x11_forward" (boolKey "x11_forward"),
   -- SSH Port Forwarding
   ⟨"tb_portfwd", .tableWidget, ⟨dictKey "portfwd", .none, [.twoColumns, .col0IsSorted]⟩⟩,
   checkBox "chb_rport_acceptall" (boolKey "rport_acceptall"),
   checkBox "chb_lport_acceptall" (boolKey "lport_acceptall"),
   -- SSH Server Bug Workarounds
   comboBox "cb_sshbug_ignore2" (intKey "sshbug_ignore2"),
   comboBox "cb_sshbug_hmac2" (intKey "sshbug_hmac2"),
   comboBox "cb_sshbug_oldgex2" (intKey "sshbug_oldgex2"),
   comboBox "cb_sshbug_chanreq" (intKey "sshbug_chanreq"),
   comboBox "cb_sshbug_rsapad2" (intKey "sshbug_rsapad2"),
   comboBox "cb_sshbug_ignore1" (intKey "sshbug_ignore1"),
   comboBox "cb_sshbug_rekey2" (intKey "sshbug_rekey2"),
   comboBox "cb_sshbug_pksessid2" (intKey "sshbug_pksessid2"),
   comboBox "cb_sshbug_winadj" (intKey "sshbug_winadj"),
   comboBox "cb_sshbug_rsa1" (intKey "sshbug_rsa1"),
   comboBox "cb_sshbug_derivekey2" (intKey "sshbug_derivekey2"),
   comboBox "cb_sshbug_maxpkt2" (intKey "sshbug_maxpkt2"),
   comboBox "cb_sshbug_plainpw1" (intKey "sshbug_plainpw1"),
   comboBox "cb_sshbug_rsa_sha2_cert_userauth" (intKey "sshbug_rsa_sha2_cert_userauth"),
   comboBox "cb_sshbug_dropstart" (intKey "sshbug_dropstart"),
   comboBox "cb_sshbug_filter_kexinit" (intKey "sshbug_filter_kexinit"),
   -- Serial Port
   lineEdit "le_serial_line" (strKey "serline"),
   comboBox "cb_config_flow" (intKey "serflow"),
   lineEdit "le_config_stop" (intKey "serstopbits"),
   lineEdit "le_config_speed" (intKey "serspeed"),
   comboBox "cb_config_parity" (intKey "serparity"),
   lineEdit "le_config_data" (intKey "serdatabits"),
   -- Telnet
   boolButton "rb_telnetprotocol_bsd" "groupBox_39" "rfc_environ" false,
   boolButton "rb_telnetprotocol_rfc1408" "groupBox_39" "rfc_environ" true,
   boolButton "rb_telnetnegotiate_passsive" "buttonGroup_7" "passive_telnet" true,
   boolButton "rb_telnetnegotiate_active" "buttonGroup_7" "passive_telnet" false,
   checkBox "chb_telnet_returnkey" (boolKey "telnet_newline"),
   checkBox "chb_telnet_keyboard" (boolKey "telnet_keyboard"),
   -- Rlogin
   lineEdit "le_local_username" (strKey "localusername"),
   -- SUPDUP
   checkBox "chb_supdup_more" (boolKey "supdup_more"),
   lineEdit "le_supdup_location" (strKey "supdup_location"),
   -- SUPDUP_CHARSET_ASCII
   intButton "rb_supdup_ascii_set_none" "buttonGroup_14" "supdup_ascii_set" 0,
   intButton "rb_supdup_ascii_set_its" "buttonGroup_14" "supdup_ascii_set" 1,  -- SUPDUP_CHARSET_ITS
   -- SUPDUP_CHARSET_WAITS
   intButton "rb_supdup_ascii_set_waits" "buttonGroup_14" "supdup_ascii_set" 2,
   checkBox "chb_supdup_scroll" (boolKey "supdup_scroll")]

end Mapping

section Checks

/-- The bytes of a name as a number, for the comparison of names. -/
def nameCode (name : String) : Nat :=
  name.toByteArray.data.toList.foldl (fun n b => 256 * n + b.toNat) 0

/-- The names of the widgets are different. -/
theorem objectName_nodup : (uiMapping.map Widget.objectName).Nodup := by
  have hcode : (uiMapping.map (fun w => nameCode w.objectName)).Nodup :=
    nodup_of_distinct (by decide +kernel)
  refine List.Nodup.of_map nameCode ?_
  rw [List.map_map]
  exact hcode

/-- An option is among some others, with their names as numbers. -/
def listed (options : List (Nat × ConfOption)) (key : Nat × ConfOption) : Bool :=
  options.any (fun k => Nat.beq k.1 key.1 && decide (k.2 = key.2))

/-- Every key is an option, with its types. -/
theorem uiMapping_keys : ∀ w ∈ uiMapping, w.kv.key ∈ confOptions := by
  have hlisted : uiMapping.all (fun w => listed (confOptions.map (fun k => (nameCode k.name, k)))
      (nameCode w.kv.key.name, w.kv.key)) = true := by decide +kernel
  intro w hw
  obtain ⟨k, hk, hkey⟩ := List.any_eq_true.mp (List.all_eq_true.mp hlisted w hw)
  obtain ⟨option, hoption, rfl⟩ := List.mem_map.mp hk
  simp only [Bool.and_eq_true, decide_eq_true_eq] at hkey
  exact hkey.2 ▸ hoption

/-- What widgets may share a key: the radio buttons of a group, or check boxes and line
edits without options, but for the check box that `setConfig` sets by itself. -/
def Widget.family (w : Widget) : Option (Option String) :=
  if w.kv.options ≠ [] ∨ w.objectName = "chb_sessionlog_flush" then none
  else
    match w.cls with
    | .radioButton group _ => some (some group)
    | .checkBox => some none
    | .lineEdit => some none
    | _ => none

/-- Keys, as numbers, that are shared only inside of a family. -/
def sharedInFamilies : List (Nat × Option (Option String)) → Bool
  | [] => true
  | r :: rs =>
      rs.all (fun r' => !Nat.beq r.1 r'.1 || decide (r.2 ≠ none ∧ r.2 = r'.2)) &&
        sharedInFamilies rs

theorem pairwise_of_sharedInFamilies {ws : List Widget}
    (h : sharedInFamilies (ws.map (fun w => (nameCode w.kv.key.name, w.family))) = true) :
    ws.Pairwise (fun w w' => w.kv.key = w'.kv.key → w.family ≠ none ∧ w.family = w'.family) := by
  induction ws with
  | nil => exact .nil
  | cons w ws ih =>
      rw [List.map_cons, sharedInFamilies, Bool.and_eq_true, List.all_eq_true] at h
      refine .cons (fun w' hw' hkey => ?_) (ih h.2)
      have hpair := h.1 _ (List.mem_map_of_mem hw')
      simpa [hkey] using hpair

/-- **A key is shared** only by widgets of one family. -/
theorem uiMapping_shared : uiMapping.Pairwise (fun w w' =>
    w.kv.key = w'.kv.key → w.family ≠ none ∧ w.family = w'.family) :=
  pairwise_of_sharedInFamilies (by decide +kernel)

/-- The widgets with optional keys. -/
theorem uiMapping_optional : ∀ w ∈ uiMapping, .optional ∈ w.kv.options →
    w.cls = .checkBox ∧ w.kv.type = .bool ∨ w.cls = .lineEdit ∧ w.kv.type = .filename := by
  decide +kernel

/-- The only widget for the colours is their list. -/
theorem uiMapping_colours : ∀ w ∈ uiMapping, w.kv.key = confColours →
    w = ⟨"l_colour", .listWidget, ⟨listKey "colours", .dataList coloursDataList, []⟩⟩ := by
  decide +kernel

end Checks

end Dialog
end Qutty
