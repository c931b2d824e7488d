import NervesSystem.Fwup
import NervesSystem.UbootEnv
import Mathlib.Tactic.Simps.Basic

namespace NervesSystem

/-- What differs between archives built from fwup.conf: the defines of
fwup-common.conf, the identity of the archive and its files. `serialNumber` is
`NERVES_SERIAL_NUMBER` at the time the archive is applied. Platform and architecture, which
fwup-common.conf gives values, are not empty: U-Boot drops a variable without a value, so that
such an archive would not pass its own gate. -/
structure Archive where
  product : String := "Nerves Firmware"
  description : String := ""
  version : String
  platform : String := "smt1019"
  architecture : String := "aarch64"
  author : String := "Isaiah"
  vcsIdentifier : String := ""
  misc : String := ""
  devpath : String := "/dev/mmcblk0"
  applicationPart0Devpath : String := "/dev/mmcblk0p5"
  applicationPart0Fstype : String := "f2fs"
  applicationPart0Target : String := "/root"
  uuid : String
  serialNumber : String := ""
  idbloader : Payload Bytes
  ubootItb : Payload Bytes
  image : Payload File
  devicetree : Payload File
  resource : Payload Bytes
  rootfs : Payload Bytes
  platform_ne : platform ≠ "" := by decide
  architecture_ne : architecture ≠ "" := by decide

def extlinuxA : Extlinux where
  default := "nerves-a"
  timeout := 10
  label := "nerves-a"
  kernel := "/Image.a"
  fdt := "/rk3576-smt1019.a.dtb"
  append := ["console=ttyFIQ0", "console=tty1", "root=/dev/mmcblk0p2", "rootfstype=squashfs",
    "rootwait"]

def extlinuxB : Extlinux where
  default := "nerves-b"
  timeout := 10
  label := "nerves-b"
  kernel := "/Image.b"
  fdt := "/rk3576-smt1019.b.dtb"
  append := ["console=ttyFIQ0", "console=tty1", "root=/dev/mmcblk0p3", "rootfstype=squashfs",
    "rootwait"]

def extlinuxPath : String := "extlinux/extlinux.conf"

/-- The `file-resource` entries of fwup.conf. -/
def fileResources : List String :=
  ["idbloader.img", "u-boot.itb", "uboot-env.bin", "Image", "devicetree.dtb",
   "extlinux-a.conf", "extlinux-b.conf", "resource.img", "rootfs.img"]

section Tasks
variable (A : Archive)

def provisioning : List Operation :=
  [.ubootSetenv "nerves_serial_number" A.serialNumber]

@[simps name requires]
def complete : Task where
  name := "complete"
  requires := [.unmountedDestination]
  onInit :=
    [.gptWrite ["bootfs", "rootfs_a", "rootfs_b", "resource", "app"],
     .fatMkfs,
     .fatSetlabel "BOOT",
     .fatMkdir "extlinux"]
  onResource :=
    [("idbloader.img", [.rawWrite .idbloader A.idbloader none]),
     ("u-boot.itb", [.rawWrite .ubootItb A.ubootItb none]),
     ("Image", [.fatWrite "Image.a" A.image none]),
     ("devicetree.dtb", [.fatWrite "rk3576-smt1019.a.dtb" A.devicetree none]),
     ("resource.img", [.rawWrite .resource A.resource none]),
     ("extlinux-a.conf", [.fatWrite "extlinux/extlinux.conf" (.full (.conf extlinuxA)) none]),
     ("uboot-env.bin",
       [.ubootEnvWrite ubootEnv] ++ provisioning A ++
       [.ubootSetenv "nerves_fw_active" "a",
        .ubootSetenv "nerves_fw_devpath" A.devpath,
        .ubootSetenv "a.nerves_fw_application_part0_devpath" A.applicationPart0Devpath,
        .ubootSetenv "a.nerves_fw_application_part0_fstype" A.applicationPart0Fstype,
        .ubootSetenv "a.nerves_fw_application_part0_target" A.applicationPart0Target,
        .ubootSetenv "a.nerves_fw_product" A.product,
        .ubootSetenv "a.nerves_fw_description" A.description,
        .ubootSetenv "a.nerves_fw_version" A.version,
        .ubootSetenv "a.nerves_fw_platform" A.platform,
        .ubootSetenv "a.nerves_fw_architecture" A.architecture,
        .ubootSetenv "a.nerves_fw_author" A.author,
        .ubootSetenv "a.nerves_fw_vcs_identifier" A.vcsIdentifier,
        .ubootSetenv "a.nerves_fw_misc" A.misc,
        .ubootSetenv "a.nerves_fw_uuid" A.uuid]),
     ("rootfs.img", [.rawWrite (.rootfs .a) A.rootfs none])]
  onFinish :=
    [.rawMemset (.rootfs .b) 256 0xff,
     .rawMemset .app 256 0xff]

@[simps name requires]
def upgradeA : Task where
  name := "upgrade.a"
  requires :=
    [.ubootVariable "nerves_fw_active" "b",
     .ubootVariable "nerves_fw_validated" "1",
     .ubootVariable "b.nerves_fw_platform" A.platform,
     .ubootVariable "b.nerves_fw_architecture" A.architecture]
  onInit :=
    [.info "Upgrading partition A",
     .ubootUnsetenv "a.nerves_fw_version",
     .ubootUnsetenv "a.nerves_fw_platform",
     .ubootUnsetenv "a.nerves_fw_architecture",
     .ubootUnsetenv "a.nerves_fw_uuid",
     .trim (.rootfs .a)]
  onResource :=
    [("Image", [.fatWrite "Image.a" A.image (some "Image.b")]),
     ("devicetree.dtb",
       [.fatWrite "rk3576-smt1019.a.dtb" A.devicetree (some "rk3576-smt1019.b.dtb")]),
     ("extlinux-a.conf", [.fatWrite "extlinux/extlinux.conf" (.full (.conf extlinuxA)) none]),
     ("resource.img", [.rawWrite .resource A.resource (some .resource)]),
     ("rootfs.img", [.rawWrite (.rootfs .a) A.rootfs (some (.rootfs .b))])]
  onFinish :=
    [.ubootSetenv "a.nerves_fw_application_part0_devpath" A.applicationPart0Devpath,
     .ubootSetenv "a.nerves_fw_application_part0_fstype" A.applicationPart0Fstype,
     .ubootSetenv "a.nerves_fw_application_part0_target" A.applicationPart0Target,
     .ubootSetenv "a.nerves_fw_product" A.product,
     .ubootSetenv "a.nerves_fw_description" A.description,
     .ubootSetenv "a.nerves_fw_version" A.version,
     .ubootSetenv "a.nerves_fw_platform" A.platform,
     .ubootSetenv "a.nerves_fw_architecture" A.architecture,
     .ubootSetenv "a.nerves_fw_author" A.author,
     .ubootSetenv "a.nerves_fw_vcs_identifier" A.vcsIdentifier,
     .ubootSetenv "a.nerves_fw_misc" A.misc,
     .ubootSetenv "a.nerves_fw_uuid" A.uuid,
     .ubootSetenv "nerves_fw_active" "a",
     .ubootSetenv "nerves_fw_validated" "0",
     .ubootSetenv "nerves_fw_booted" "0"]

@[simps name requires]
def upgradeB : Task where
  name := "upgrade.b"
  requires :=
    [.ubootVariable "nerves_fw_active" "a",
     .ubootVariable "nerves_fw_validated" "1",
     .ubootVariable "a.nerves_fw_platform" A.platform,
     .ubootVariable "a.nerves_fw_architecture" A.architecture]
  onInit :=
    [.info "Upgrading partition B",
     .ubootUnsetenv "b.nerves_fw_version",
     .ubootUnsetenv "b.nerves_fw_platform",
     .ubootUnsetenv "b.nerves_fw_architecture",
     .ubootUnsetenv "b.nerves_fw_uuid",
     .trim (.rootfs .b)]
  onResource :=
    [("Image", [.fatWrite "Image.b" A.image (some "Image.a")]),
     ("devicetree.dtb",
       [.fatWrite "rk3576-smt1019.b.dtb" A.devicetree (some "rk3576-smt1019.a.dtb")]),
     ("extlinux-b.conf", [.fatWrite "extlinux/extlinux.conf" (.full (.conf extlinuxB)) none]),
     ("resource.img", [.rawWrite .resource A.resource (some .resource)]),
     ("rootfs.img", [.rawWrite (.rootfs .b) A.rootfs (some (.rootfs .a))])]
  onFinish :=
    [.ubootSetenv "b.nerves_fw_application_part0_devpath" A.applicationPart0Devpath,
     .ubootSetenv "b.nerves_fw_application_part0_fstype" A.applicationPart0Fstype,
     .ubootSetenv "b.nerves_fw_application_part0_target" A.applicationPart0Target,
     .ubootSetenv "b.nerves_fw_product" A.product,
     .ubootSetenv "b.nerves_fw_description" A.description,
     .ubootSetenv "b.nerves_fw_version" A.version,
     .ubootSetenv "b.nerves_fw_platform" A.platform,
     .ubootSetenv "b.nerves_fw_architecture" A.architecture,
     .ubootSetenv "b.nerves_fw_author" A.author,
     .ubootSetenv "b.nerves_fw_vcs_identifier" A.vcsIdentifier,
     .ubootSetenv "b.nerves_fw_misc" A.misc,
     .ubootSetenv "b.nerves_fw_uuid" A.uuid,
     .ubootSetenv "nerves_fw_active" "b",
     .ubootSetenv "nerves_fw_validated" "0",
     .ubootSetenv "nerves_fw_booted" "0"]

@[simps name requires]
def upgradeUnvalidated : Task where
  name := "upgrade.unvalidated"
  requires := [.ubootVariable "nerves_fw_validated" "0"]
  onInit := [.error "Please validate the running firmware before upgrading it again."]

@[simps name requires]
def upgradeUnexpected : Task where
  name := "upgrade.unexpected"
  requires :=
    [.ubootVariable "a.nerves_fw_platform" A.platform,
     .ubootVariable "a.nerves_fw_architecture" A.architecture]
  onInit :=
    [.error ("Please check the media being upgraded. It doesn't look like either the A or B " ++
      "partitions are active.")]

def wrongplatformText (platform architecture : String) : String :=
  "Expecting platform=" ++ platform ++ " and architecture=" ++ architecture

@[simps name requires]
def upgradeWrongplatform : Task where
  name := "upgrade.wrongplatform"
  onInit := [.error (wrongplatformText A.platform A.architecture)]

@[simps name requires]
def provision : Task where
  name := "provision"
  requires :=
    [.ubootVariable "a.nerves_fw_platform" A.platform,
     .ubootVariable "a.nerves_fw_architecture" A.architecture]
  onInit := provisioning A

@[simps name requires]
def provisionWrongplatform : Task where
  name := "provision.wrongplatform"
  onInit := [.error (wrongplatformText A.platform A.architecture)]

def fwupConf : Config where
  fileResources := fileResources
  tasks :=
    [complete A, upgradeA A, upgradeB A, upgradeUnvalidated, upgradeUnexpected A,
     upgradeWrongplatform A, provision A, provisionWrongplatform A]

end Tasks

end NervesSystem
